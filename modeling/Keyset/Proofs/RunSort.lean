import Keyset.Proofs.PivotSort
import Keyset.Sorting

/-!
# Sorting by runs

Which runs are found, and in which order they are joined, does not matter for the result: a run is
in order where it says so, and neither finding nor joining runs loses an element.
-/
namespace Keyset.Sorting

variable {α β : Type} {m : Type → Type} [LinearOrder β] [Monad m] {rank : α → β}
  {less : α → α → m Bool} {eager : Bool} {all xs : List α}

/-- A run of elements of a list is in order if it says so. Runs that were sorted when they were
found all say so. -/
structure Run.Of (rank : α → β) (eager : Bool) (all : List α) (run : Run α) : Prop where
  subset : run.items ⊆ all
  pairwise : run.sorted = true → run.items.Pairwise (rank · ≤ rank ·)
  sorted : eager = true → run.sorted = true

/-! ## Joining two runs -/

section

variable {sort : List α → m (List α)} {run left right : Run α}

theorem settle_sorts (hsort : eager = false → ∀ ys, ys ⊆ all → Sorts rank (sort ys) ys)
    (hrun : run.Of rank eager all) : Sorts rank (run.settle sort) run.items := by
  unfold Run.settle
  split
  · next hsorted => exact ⟨run.items, rfl, .refl _, hrun.pairwise hsorted⟩
  · next hloose =>
    exact hsort (Bool.eq_false_iff.2 fun heager => hloose (hrun.sorted heager)) _ hrun.subset

theorem exists_join [LawfulMonad m] (h : ComparesBy less rank all)
    (hsort : eager = false → ∀ ys, ys ⊆ all → Sorts rank (sort ys) ys)
    (hleft : left.Of rank eager all) (hright : right.Of rank eager all) :
    ∃ run, Run.join less sort left right = pure run ∧ run.Of rank eager all ∧
      run.items.Perm (left.items ++ right.items) := by
  have hsub : left.items ++ right.items ⊆ all :=
    List.append_subset.2 ⟨hleft.subset, hright.subset⟩
  unfold Run.join
  split
  · obtain ⟨first, hfirst, hperm, hpair⟩ := settle_sorts hsort hleft
    obtain ⟨second, hsecond, hperm', hpair'⟩ := settle_sorts hsort hright
    have hboth := hperm.append hperm'
    obtain ⟨merged, hmerged, hall, hsorted⟩ :=
      merge_sorts ((h.mono hsub).perm hboth.symm) hpair hpair'
    refine ⟨⟨merged, true⟩, by simp only [hfirst, hsecond, hmerged, pure_bind], ?_,
      hall.trans hboth⟩
    exact ⟨List.Subset.trans (hall.trans hboth).subset hsub, fun _ => hsorted, fun _ => rfl⟩
  · next hloose =>
    refine ⟨⟨left.items ++ right.items, false⟩, rfl, ⟨hsub, fun h => (nomatch h), ?_⟩, .refl _⟩
    intro heager
    simp [hleft.sorted heager] at hloose

end

/-! ## Finding runs -/

theorem pairwise_cons_cons {r : α → α → Prop} (htrans : ∀ a b c, r a b → r b c → r a c) {a b : α}
    (hab : r a b) (hpair : (b :: xs).Pairwise r) : (a :: b :: xs).Pairwise r := by
  refine List.pairwise_cons.2 ⟨List.forall_mem_cons.2 ⟨hab, fun c hc => ?_⟩, hpair⟩
  exact htrans a b c hab ((List.pairwise_cons.1 hpair).1 c hc)

variable [LawfulMonad m]

theorem exists_takeChain {test : α → α → m Bool} {p : α → α → Bool}
    (htrans : ∀ a b c, p a b = true → p b c = true → p a c = true) (last : α)
    (htest : ∀ a ∈ last :: xs, ∀ b ∈ last :: xs, test b a = pure (p a b)) :
    ∃ chain rest, takeChain test last xs = pure (chain, rest) ∧ chain ++ rest = xs ∧
      (last :: chain).Pairwise fun a b => p a b = true := by
  induction xs generalizing last with
  | nil => exact ⟨[], [], rfl, rfl, List.pairwise_singleton _ _⟩
  | cons x xs ih =>
    have hx := htest last (by simp) x (by simp)
    cases hp : p last x with
    | true =>
      obtain ⟨chain, rest, hrun, hall, hpair⟩ := ih x fun a ha b hb =>
        htest a (List.mem_cons_of_mem _ ha) b (List.mem_cons_of_mem _ hb)
      refine ⟨x :: chain, rest, ?_, by rw [← hall, List.cons_append],
        pairwise_cons_cons htrans hp hpair⟩
      simp only [takeChain, hx, hp, pure_bind, hrun, if_true]
    | false =>
      refine ⟨[], x :: xs, ?_, rfl, List.pairwise_singleton _ _⟩
      simp only [takeChain, hx, hp, pure_bind, Bool.false_eq_true, if_false]

theorem exists_takeSorted (h : ComparesBy less rank xs) :
    ∃ found rest, takeSorted less xs = pure (found, rest) ∧ (found ++ rest).Perm xs ∧
      found.Pairwise (rank · ≤ rank ·) := by
  match xs with
  | [] => exact ⟨[], [], rfl, .refl _, .nil⟩
  | [a] => exact ⟨[a], [], rfl, .refl _, List.pairwise_singleton _ _⟩
  | a :: b :: xs =>
    have hfalls := h b (by simp) a (by simp)
    -- Rising and falling chains are one case: a chain goes on as its first two elements do.
    generalize hdecide : decide (rank b < rank a) = falls at hfalls
    have htrans (a b c : α) (hab : (decide (rank b < rank a) == falls) = true)
        (hbc : (decide (rank c < rank b) == falls) = true) :
        (decide (rank c < rank a) == falls) = true := by
      cases falls with
      | true => simpa using lt_trans (by simpa using hbc) (by simpa using hab : rank b < rank a)
      | false => simpa using le_trans (by simpa using hab) (by simpa using hbc : rank b ≤ rank c)
    have htest : ∀ c ∈ b :: xs, ∀ d ∈ b :: xs,
        (do return (← less d c) == falls) = pure (decide (rank d < rank c) == falls) := by
      intro c hc d hd
      rw [h d (List.mem_cons_of_mem a hd) c (List.mem_cons_of_mem a hc), pure_bind]
    obtain ⟨chain, rest, hrun, hall, hpair⟩ := exists_takeChain htrans b htest
    have hfirst : (decide (rank b < rank a) == falls) = true := by rw [hdecide, beq_self_eq_true]
    have hchain := pairwise_cons_cons htrans hfirst hpair
    refine ⟨if falls then (a :: b :: chain).reverse else a :: b :: chain, rest, ?_, ?_, ?_⟩
    · simp only [takeSorted, hfalls, pure_bind, hrun]
    · rw [← hall, ← List.cons_append, ← List.cons_append]
      refine List.Perm.append_right rest ?_
      split
      · exact List.reverse_perm _
      · exact .refl _
    · cases falls with
      | true =>
        refine List.pairwise_reverse.2 (hchain.imp fun hlt => ?_)
        exact le_of_lt (by simpa using hlt)
      | false => exact hchain.imp fun hle => by simpa using hle

theorem exists_run [MonadExceptOf Disorder m] (h : ComparesBy less rank all) (hxs : xs ⊆ all) (good : Nat)
    {found rest : List α} (hperm : (found ++ rest).Perm xs)
    (hpair : found.Pairwise (rank · ≤ rank ·)) :
    ∃ run rest', (if good ≤ found.length then return (⟨found, true⟩, rest)
        else if eager then
          return (⟨← sortShort less (xs.take shortLength), true⟩, xs.drop shortLength)
        else return (⟨xs.take good, false⟩, xs.drop good) : m (Run α × List α)) =
          pure (run, rest') ∧ run.Of rank eager all ∧ (run.items ++ rest').Perm xs ∧
      (0 < good → xs ≠ [] → run.items ≠ []) := by
  split
  · next hlong =>
    refine ⟨_, _, rfl, ⟨fun x hx => ?_, fun _ => hpair, fun _ => rfl⟩, hperm, ?_⟩
    · exact hxs (hperm.subset (List.mem_append_left rest hx))
    · intro hgood _
      exact List.ne_nil_of_length_pos (lt_of_lt_of_le hgood hlong)
  · split
    · obtain ⟨sorted, hrun, hsorted, hpair'⟩ :=
        sortShort_sorts (h.mono (List.Subset.trans (List.take_subset shortLength xs) hxs))
      refine ⟨⟨sorted, true⟩, xs.drop shortLength, by rw [hrun, pure_bind],
        ⟨?_, fun _ => hpair', fun _ => rfl⟩, ?_, ?_⟩
      · exact List.Subset.trans hsorted.subset (List.Subset.trans (List.take_subset _ _) hxs)
      · have hall := hsorted.append_right (xs.drop shortLength)
        rwa [List.take_append_drop] at hall
      · intro _ hne
        have hpos := List.length_pos_iff.2 hne
        refine List.ne_nil_of_length_pos ?_
        rw [hsorted.length_eq, List.length_take, shortLength]
        omega
    · next hlazy =>
      refine ⟨_, _, rfl, ⟨?_, fun h => (nomatch h), fun heager => absurd heager hlazy⟩, ?_, ?_⟩
      · exact List.Subset.trans (List.take_subset _ _) hxs
      · rw [List.take_append_drop]
      · intro hgood hne hnil
        rcases List.take_eq_nil_iff.1 hnil with hzero | hnone
        · omega
        · exact hne hnone

theorem exists_takeRun [MonadExceptOf Disorder m] (eager : Bool) (h : ComparesBy less rank all)
    (hxs : xs ⊆ all) (good : Nat) :
    ∃ run rest, takeRun less eager good xs = pure (run, rest) ∧ run.Of rank eager all ∧
      (run.items ++ rest).Perm xs ∧ (0 < good → xs ≠ [] → run.items ≠ []) := by
  by_cases hlong : good ≤ xs.length
  · obtain ⟨found, rest, hrun, hperm, hpair⟩ := exists_takeSorted (h.mono hxs)
    simp only [takeRun, if_pos hlong, hrun, pure_bind]
    exact exists_run h hxs good hperm hpair
  · have hperm : ([] ++ xs).Perm xs := .refl xs
    simp only [takeRun, if_neg hlong, pure_bind]
    exact exists_run h hxs good hperm .nil

theorem goodLength_pos {length : Nat} (h : 0 < length) : 0 < goodLength length := by
  rw [goodLength]
  split
  · omega
  · next hlong =>
    obtain ⟨n, hn⟩ : ∃ n, (1 + length.log2) / 2 = n + 1 := by
      have hlog : 1 ≤ length.log2 := (Nat.le_log2 (by omega)).2 (by omega)
      exact ⟨(1 + length.log2) / 2 - 1, by omega⟩
    have hroot : 2 ≤ twoTo (n + 1) := by
      have := twoTo_pos n
      rw [twoTo_succ]
      omega
    rw [hn]
    exact Nat.div_pos (le_trans hroot (Nat.le_add_right _ _)) two_pos

/-! ## Joining all runs -/

def stackItems (stack : Stack α) : List α := stack.flatMap fun entry => entry.1.items

section

variable {join : Run α → Run α → m (Run α)} {find : List α → m (Run α × List α)}
  {last : Run α} {stack : Stack α}

/-- Runs are joined to a run of the elements of both. -/
def Joins (rank : α → β) (eager : Bool) (all : List α)
    (join : Run α → Run α → m (Run α)) : Prop :=
  ∀ left right : Run α, left.Of rank eager all → right.Of rank eager all →
    ∃ run, join left right = pure run ∧ run.Of rank eager all ∧
      run.items.Perm (left.items ++ right.items)

/-- A run is found in front of any list that is not empty. -/
def Finds (rank : α → β) (eager : Bool) (all : List α)
    (find : List α → m (Run α × List α)) : Prop :=
  ∀ xs, xs ⊆ all → ∃ run rest, find xs = pure (run, rest) ∧ run.Of rank eager all ∧
    (run.items ++ rest).Perm xs ∧ (xs ≠ [] → run.items ≠ [])

theorem exists_collapse (hjoin : Joins rank eager all join) (depth : Nat)
    (hlast : last.Of rank eager all) (hstack : ∀ entry ∈ stack, entry.1.Of rank eager all) :
    ∃ run left, collapse join depth last stack = pure (run, left) ∧ run.Of rank eager all ∧
      (∀ entry ∈ left, entry.1.Of rank eager all) ∧
      (run.items ++ stackItems left).Perm (last.items ++ stackItems stack) ∧
      (depth = 0 → left = []) := by
  induction stack generalizing last with
  | nil => exact ⟨last, [], rfl, hlast, hstack, .refl _, fun _ => rfl⟩
  | cons entry stack ih =>
    obtain ⟨neighbour, joint⟩ := entry
    obtain ⟨hneighbour, hstack⟩ := List.forall_mem_cons.1 hstack
    rw [collapse]
    split
    · obtain ⟨joined, hrun, hof, hperm⟩ := hjoin neighbour last hneighbour hlast
      obtain ⟨run, left, hcollapse, hof', hleft, hperm', hzero⟩ := ih hof hstack
      refine ⟨run, left, ?_, hof', hleft, hperm'.trans ?_, hzero⟩
      · rw [hrun, pure_bind]
        exact hcollapse
      · refine (hperm.append_right _).trans ?_
        rw [stackItems, stackItems, List.flatMap_cons, ← List.append_assoc]
        exact List.perm_append_comm.append_right _
    · next hdeep =>
      refine ⟨last, (neighbour, joint) :: stack, rfl, hlast,
        List.forall_mem_cons.2 ⟨hneighbour, hstack⟩, .refl _, fun hzero => ?_⟩
      omega

theorem exists_joinAll (hjoin : Joins rank eager all join) (hlast : last.Of rank eager all)
    (hstack : ∀ entry ∈ stack, entry.1.Of rank eager all) :
    ∃ run, (do return (← collapse join 0 last stack).1) = pure run ∧ run.Of rank eager all ∧
      run.items.Perm (last.items ++ stackItems stack) := by
  obtain ⟨run, left, hrun, hof, _, hperm, hzero⟩ := exists_collapse hjoin 0 hlast hstack
  obtain rfl := hzero rfl
  rw [stackItems, List.flatMap_nil, List.append_nil] at hperm
  exact ⟨run, by rw [hrun, pure_bind], hof, hperm⟩

theorem exists_joinRuns (hfind : Finds rank eager all find) (hjoin : Joins rank eager all join)
    (length : Nat) {fuel : Nat} (hfuel : xs.length ≤ fuel) (hxs : xs ⊆ all)
    (hlast : last.Of rank eager all) (hstack : ∀ entry ∈ stack, entry.1.Of rank eager all)
    (place : Nat) :
    ∃ run, joinRuns find join length fuel stack last place xs = pure run ∧
      run.Of rank eager all ∧ run.items.Perm (last.items ++ stackItems stack ++ xs) := by
  induction fuel generalizing xs last stack place with
  | zero =>
    obtain rfl := List.length_eq_zero_iff.1 (Nat.le_zero.1 hfuel)
    rw [List.append_nil]
    exact exists_joinAll hjoin hlast hstack
  | succ fuel ih =>
    cases xs with
    | nil =>
      rw [List.append_nil]
      exact exists_joinAll hjoin hlast hstack
    | cons x xs =>
      obtain ⟨run, rest, hrun, hof, hperm, hsome⟩ := hfind (x :: xs) hxs
      have hlength := hperm.length_eq
      have hpos := List.length_pos_iff.2 (hsome (List.cons_ne_nil x xs))
      rw [List.length_append] at hlength
      have hrest : rest ⊆ all :=
        List.Subset.trans (fun y hy => hperm.subset (List.mem_append_right _ hy)) hxs
      obtain ⟨depth, hdepth⟩ : ∃ depth, depth =
        jointDepth length (place - last.items.length) place (place + run.items.length) := ⟨_, rfl⟩
      obtain ⟨joined, left, hcollapse, hjoined, hleft, hmove, _⟩ :=
        exists_collapse hjoin depth hlast hstack
      -- What was joined goes on the stack, and the new run is the last one from here on.
      have hstack' : ∀ entry ∈ (joined, depth) :: left, entry.1.Of rank eager all :=
        List.forall_mem_cons.2 ⟨hjoined, hleft⟩
      obtain ⟨result, hresult, hof', hall⟩ :=
        ih (by omega) hrest hof hstack' (place + run.items.length)
      refine ⟨result, ?_, hof', hall.trans ?_⟩
      · simp only [joinRuns, hrun, pure_bind, ← hdepth, hcollapse]
        exact hresult
      · calc (run.items ++ stackItems ((joined, depth) :: left) ++ rest).Perm
              (run.items ++ (last.items ++ stackItems stack) ++ rest) :=
              (hmove.append_left run.items).append_right rest
          List.Perm _ (last.items ++ stackItems stack ++ run.items ++ rest) :=
              List.perm_append_comm.append_right rest
          List.Perm _ (last.items ++ stackItems stack ++ (x :: xs)) := by
              rw [List.append_assoc _ run.items]
              exact hperm.append_left _

end

variable [MonadExceptOf Disorder m]

/-- Sorting by runs, where the runs that are not in order are left to another sort. -/
theorem sortRuns_sorts {sort : List α → m (List α)} (h : ComparesBy less rank xs)
    (hsort : eager = false → ∀ ys, ys ⊆ xs → Sorts rank (sort ys) ys) :
    Sorts rank (sortRuns less sort eager xs) xs := by
  have hfind : Finds rank eager xs (takeRun less eager (goodLength xs.length)) := by
    intro ys hys
    obtain ⟨run, rest, hrun, hof, hperm, hsome⟩ :=
      exists_takeRun eager h hys (goodLength xs.length)
    refine ⟨run, rest, hrun, hof, hperm, fun hne => hsome (goodLength_pos ?_) hne⟩
    obtain ⟨y, hy⟩ := List.exists_mem_of_ne_nil ys hne
    exact List.length_pos_of_mem (hys hy)
  have hjoin : Joins rank eager xs (Run.join less sort) :=
    fun left right hleft hright => exists_join h hsort hleft hright
  obtain ⟨first, rest, hrun, hof, hperm, _⟩ := hfind xs (List.Subset.refl xs)
  have hlength := hperm.length_eq
  rw [List.length_append] at hlength
  have hrest : rest ⊆ xs := fun x hx => hperm.subset (List.mem_append_right _ hx)
  have hempty : ∀ entry ∈ ([] : Stack α), entry.1.Of rank eager xs := List.forall_mem_nil _
  obtain ⟨joined, hjoined, hof', hall⟩ := exists_joinRuns hfind hjoin xs.length
    (show rest.length ≤ xs.length by omega) hrest hof hempty first.items.length
  simp only [sortRuns, hrun, pure_bind, hjoined]
  refine (settle_sorts hsort hof').of_perm (hall.trans ?_)
  rwa [stackItems, List.flatMap_nil, List.append_nil]

theorem sortLoose_sorts (h : ComparesBy less rank xs) : Sorts rank (sortLoose less xs) xs := by
  refine sortByPivots_sorts h (fun ys hys => ?_) _ none (List.Subset.refl xs) ?_
  · exact sortRuns_sorts (h.mono hys) fun heager => nomatch heager
  · exact fun b hb => nomatch hb

/-- Sorting succeeds with a sorted permutation of the list. -/
theorem sort_sorts (h : ComparesBy less rank xs) : Sorts rank (sort less xs) xs := by
  unfold sort
  split
  · exact insertion_sorts h
  · exact sortRuns_sorts h fun _ ys hys => sortLoose_sorts (h.mono hys)

end Keyset.Sorting
