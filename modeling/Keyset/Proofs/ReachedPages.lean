import Keyset.Proofs.Navigation

/-!
# Reached pages

A client enters a listing at its first page, at its last page or by some token, and goes on with the
tokens that its pages give, in any order. All pages that it gets are aligned, so from each of them
the tokens lead to the windows right beside it.
-/
namespace Keyset

variable {R : Type} [Record R]

/-- A token that a page gives, for itself or for a page beside it. -/
inductive Page.Gives (page : Page (Table R) R) : Token → Prop where
  | again : page.Gives page.info
  | next {token : Token} (h : page.nextToken.result = .ok (some token)) : page.Gives token
  | previous {token : Token} (h : page.previousToken.result = .ok (some token)) : page.Gives token

/-- The first page, the last one, the pages of tokens that the listing may be entered by, and those of
tokens that a page before has given. A page that was asked for a token remembers the counts it
needed. -/
inductive Paginator.Reaches (p : Paginator (Table R)) (entry : Token → Prop) :
    Page (Table R) R → Prop where
  | first {page : Page (Table R) R} (hpage : (p.page none).result = .ok page) : p.Reaches entry page
  | last {page : Page (Table R) R} (hpage : p.last.result = .ok page) : p.Reaches entry page
  | enter {token : Token} {page : Page (Table R) R} (hentry : entry token)
    (hpage : (p.page (some token)).result = .ok page) : p.Reaches entry page
  | follow {token : Token} {page after : Page (Table R) R} (h : p.Reaches entry page)
    (htoken : page.Gives token) (hpage : (p.page (some token)).result = .ok after) :
    p.Reaches entry after
  | askNext {page : Page (Table R) R} (h : p.Reaches entry page) :
    p.Reaches entry page.nextToken.page
  | askPrevious {page : Page (Table R) R} (h : p.Reaches entry page) :
    p.Reaches entry page.previousToken.page

namespace Page.Aligned

variable {p : Paginator (Table R)} {records : List R} {page after : Page (Table R) R} {first : Nat}
  {token : Token}

theorem askNext (h : page.Aligned p first) (hp : p.Navigable records) :
    page.nextToken.page.Aligned p first := by
  by_cases hlt : first + p.perPage < p.store.records.length
  · obtain ⟨duplicates, hcounts, hpage⟩ := (h.toShows.nextToken hp.isSorted hp.exceeds hlt).page
    rw [hpage]
    exact h.withCounts hcounts
  · obtain ⟨duplicates, hcounts, hpage⟩ := (h.toShows.nextToken_none (not_lt.1 hlt)).page
    rw [hpage]
    exact h.withCounts hcounts

theorem askPrevious (h : page.Aligned p first) (hp : p.Navigable records) :
    page.previousToken.page.Aligned p first := by
  cases hfirst : page.isFirst with
  | true =>
    obtain ⟨duplicates, hcounts, hpage⟩ := (h.toShows.previousToken_none hfirst).page
    rw [hpage]
    exact h.withCounts hcounts
  | false =>
    obtain ⟨duplicates, hcounts, hpage⟩ :=
      (h.toShows.previousToken hp.isSorted hp.exceeds hfirst h.lt).page
    rw [hpage]
    exact h.withCounts hcounts

theorem gives (h : page.Aligned p first) (hp : p.Navigable records) (htoken : page.Gives token)
    (hafter : p.window (some token) = .ok after) : ∃ start, after.Aligned p start := by
  cases htoken with
  | again =>
    obtain ⟨again, start, hagain, haligned⟩ := h.again hp
    rw [hafter, Except.ok.injEq] at hagain
    exact ⟨start, hagain ▸ haligned⟩
  | next hnext =>
    by_cases hlt : first + p.perPage < p.store.records.length
    · obtain ⟨token, offset, hgiven, hwindow, haligned⟩ := h.next hp hlt
      rw [hnext, Except.ok.injEq, Option.some.injEq] at hgiven
      rw [hgiven, hwindow, Except.ok.injEq] at hafter
      exact ⟨_, hafter ▸ haligned⟩
    · have hnone := (h.toShows.nextToken_none (not_lt.1 hlt)).result
      rw [hnext] at hnone
      cases hnone
  | previous hprevious =>
    cases hfirst : page.isFirst with
    | true =>
      have hnone := (h.toShows.previousToken_none hfirst).result
      rw [hprevious] at hnone
      cases hnone
    | false =>
      obtain ⟨token, offset, hgiven, hwindow, haligned⟩ := h.previous hp hfirst
      rw [hprevious, Except.ok.injEq, Option.some.injEq] at hgiven
      rw [hgiven, hwindow] at hafter
      split at hafter
      · next hfar =>
        rw [Except.ok.injEq] at hafter
        exact ⟨_, hafter ▸ haligned hfar⟩
      · cases hafter

end Page.Aligned

namespace Paginator

/-- A token whose offset, if it has one, stays within the run of its scalar. -/
def EntersRun (p : Paginator (Table R)) (token : Token) : Prop :=
  token.kind = .forward ∨ token.kind = .backward →
    ∀ v ∈ token.value.bind p.key.kind.ofJson?, token.offset = 0 ∨
      token.offset < p.store.records.countP fun r => (p.key.scalarOf r).same v

variable {p : Paginator (Table R)} {records : List R} {page : Page (Table R) R}

theorem entersRun_last (p : Paginator (Table R)) : p.EntersRun (.last p.key.key) := by
  rintro (hkind | hkind)
  · cases hkind
  · cases hkind

theorem skipsNoRun_of_run (hp : p.IsSorted) {v : Scalar} (hv : v.fits p.key.kind = true)
    {kind : PageKind} (hkind : kind = .forward ∨ kind = .backward) {offset : Nat}
    (hpage : p.boundaryWindow kind v offset = .ok page)
    (hoffset : offset = 0 ∨ p.before v + offset < p.upTo v) : p.SkipsNoRun kind v offset := by
  rcases hkind with rfl | rfl
  · intro r hr
    obtain ⟨hlt, rfl⟩ := List.getElem?_eq_some_iff.1 hr
    rcases hoffset with hzero | hrun
    · have hle := hp.before_getElem_le hlt
      have hge := hp.before_le_before_getElem hv hlt (Nat.le_add_right _ _)
      omega
    · exact (hp.cuts_getElem hv hlt (Nat.le_add_right _ _) hrun).1
  · intro r hr
    obtain ⟨hlt, rfl⟩ := List.getElem?_eq_some_iff.1 hr
    obtain ⟨hfar, _⟩ := eq_pageBefore hpage
    rcases hoffset with hzero | hrun
    · have hgt := hp.lt_upTo_getElem hlt
      have hle := hp.upTo_getElem_le hv hlt (by omega)
      omega
    · exact (hp.cuts_getElem hv hlt (by omega) (by omega)).2

theorem window_aligned (hp : p.Navigable records) {token : Option Token}
    (hentry : ∀ t ∈ token, p.EntersRun t) (hpage : p.window token = .ok page) :
    ∃ first, page.Aligned p first := by
  have hsorted := hp.isSorted
  have hmany := hp.many
  obtain rfl | rfl | ⟨t, v, rfl, hkind, hv, hfit, hwindow⟩ := window_cases hmany hpage
  · exact ⟨0, Page.aligned_firstPage hsorted (by omega)⟩
  · exact ⟨_, Page.aligned_lastPage hmany⟩
  · have hrun : t.offset = 0 ∨ p.before v + t.offset < p.upTo v := by
      rw [hsorted.upTo_eq hfit, Nat.add_lt_add_iff_left]
      exact hentry t rfl hkind v hv
    have hskips := skipsNoRun_of_run hsorted hfit hkind hwindow hrun
    exact (aligned_of_skipsNoRun hkind hwindow hskips).2

/-- Every page that is reached is aligned. -/
theorem Reaches.aligned (hp : p.Navigable records) (h : p.Reaches p.EntersRun page) :
    ∃ first, page.Aligned p first := by
  induction h with
  | first hpage =>
    rw [page_result_eq hp.toServes] at hpage
    exact window_aligned hp (by simp) hpage
  | last hpage =>
    rw [last_eq, page_result_eq hp.toServes] at hpage
    exact window_aligned hp (by simpa using p.entersRun_last) hpage
  | enter hentry hpage =>
    rw [page_result_eq hp.toServes] at hpage
    exact window_aligned hp (by simpa using hentry) hpage
  | follow _ htoken hpage ih =>
    obtain ⟨first, haligned⟩ := ih
    rw [page_result_eq hp.toServes] at hpage
    exact haligned.gives hp htoken hpage
  | askNext _ ih =>
    obtain ⟨first, haligned⟩ := ih
    exact ⟨first, haligned.askNext hp⟩
  | askPrevious _ ih =>
    obtain ⟨first, haligned⟩ := ih
    exact ⟨first, haligned.askPrevious hp⟩

end Paginator

/-- A page that is a window of the table, and whose tokens lead to the windows right beside it. -/
structure Page.BetweenNeighbours (page : Page (Table R) R) (p : Paginator (Table R))
    (first stop : Nat) : Prop where
  lt : first < stop
  stop_eq : stop = min (first + p.perPage) p.store.records.length
  records : page.records = (p.store.records.take stop).drop first
  nextItem : page.nextItem = p.store.records[stop]?
  next : stop < p.store.records.length → ∃ token after,
    page.nextToken.result = .ok (some token) ∧ (p.page (some token)).result = .ok after ∧
    after.records =
      (p.store.records.take (min (stop + p.perPage) p.store.records.length)).drop stop ∧
    after.nextItem = p.store.records[stop + p.perPage]?
  previous : page.isFirst = false → ∃ token, page.previousToken.result = .ok (some token) ∧
    (p.perPage < first → ∃ before, (p.page (some token)).result = .ok before ∧
      before.records = (p.store.records.take first).drop (first - p.perPage) ∧
      before.nextItem = p.store.records[first]?) ∧
    (first ≤ p.perPage → (p.page (some token)).result = .error .startOfSequence)

namespace Page.Aligned

variable {p : Paginator (Table R)} {records : List R} {page : Page (Table R) R} {first : Nat}

omit [Record R] in
private theorem take_drop_eq (xs : List R) (first perPage : Nat) :
    (xs.drop first).take perPage = (xs.take (min (first + perPage) xs.length)).drop first := by
  rw [← List.take_take, List.take_length, List.drop_take, Nat.add_sub_cancel_left]

/-- The tokens of an aligned page lead to its neighbours. -/
theorem betweenNeighbours (h : page.Aligned p first) (hp : p.Navigable records) :
    page.BetweenNeighbours p first (min (first + p.perPage) p.store.records.length) where
  lt := by
    have hlt := h.lt
    have hper := p.one_lt_perPage
    omega
  stop_eq := rfl
  records := by rw [h.records, take_drop_eq]
  nextItem := by
    rw [h.nextItem]
    by_cases hlt : first + p.perPage < p.store.records.length
    · rw [Nat.min_eq_left hlt.le]
    · rw [List.getElem?_eq_none (not_lt.1 hlt), Nat.min_eq_right (not_lt.1 hlt),
        List.getElem?_eq_none le_rfl]
  next hlt := by
    have hstop : first + p.perPage < p.store.records.length := by omega
    obtain ⟨token, offset, htoken, hwindow, _⟩ := h.next hp hstop
    rw [← Paginator.page_result_eq hp.toServes] at hwindow
    refine ⟨token, _, htoken, hwindow, ?_⟩
    rw [Nat.min_eq_left hstop.le, Paginator.pageFrom]
    exact ⟨take_drop_eq _ _ _, rfl⟩
  previous hfirst := by
    obtain ⟨token, offset, htoken, hwindow, _⟩ := h.previous hp hfirst
    rw [← Paginator.page_result_eq hp.toServes] at hwindow
    refine ⟨token, htoken, ?_, ?_⟩
    · intro hfar
      exact ⟨_, hwindow.trans (if_pos hfar), rfl, rfl⟩
    · intro hnear
      exact hwindow.trans (if_neg (not_lt.2 hnear))

end Page.Aligned

/-- In every listing of more records than one page holds, each page that is reached lies between its
neighbours. -/
theorem reached_pages_betweenNeighbours {key : SortKey} {records : List R} {perPage : Nat}
    (hsuits : key.Suits records) (hback : key.DecodesBack records)
    (hlength : records.length ≤ maxLength) (hper : 1 < perPage) (hmany : perPage < records.length) :
    ∃ table p, Table.orderedBy key records = .ok table ∧
      Paginator.make table key perPage records.length = .ok p ∧
      ∀ page, p.Reaches p.EntersRun page → ∃ first stop, page.BetweenNeighbours p first stop := by
  obtain ⟨table, p, htable, hmake, hp⟩ :=
    Paginator.exists_navigable hsuits hback hlength hper hmany
  refine ⟨table, p, htable, hmake, ?_⟩
  intro page hpage
  obtain ⟨first, haligned⟩ := hpage.aligned hp
  exact ⟨first, _, haligned.betweenNeighbours hp⟩

/-! ## A listing with ties -/

/-- The records of a listing by rank, highest first, in which three of five have one rank. -/
def tiedRanks : List Row := ranked [.int 2, .null, .int 2, .int 2, .null]

def tied : Paginator (Table Row) where
  store := ⟨[⟨1, [("rank", .int 2)]⟩, ⟨3, [("rank", .int 2)]⟩, ⟨4, [("rank", .int 2)]⟩,
    ⟨2, [("rank", .null)]⟩, ⟨5, [("rank", .null)]⟩]⟩
  key := rankKey true
  perPage := 2
  count := 5
  one_lt_perPage := by decide

theorem suits_tiedRanks : (rankKey true).Suits tiedRanks := ⟨by decide, by decide⟩

theorem orderedBy_tiedRanks : Table.orderedBy (rankKey true) tiedRanks = .ok tied.store := by
  decide +kernel

theorem reaches_tied (entry : Token → Prop) : tied.Reaches entry (tied.pageFrom 2 2 false) :=
  .follow (.first rfl) (.next rfl) rfl

theorem reached_pages_betweenNeighbours_ranked :
    ∃ table p page, Table.orderedBy (rankKey true) tiedRanks = .ok table ∧
      Paginator.make table (rankKey true) 2 5 = .ok p ∧
      p.Reaches p.EntersRun page ∧ page.records.map Row.id = [4, 2] ∧
      ∃ first stop, page.BetweenNeighbours p first stop := by
  obtain ⟨table, p, htable, hmake, hpages⟩ :=
    reached_pages_betweenNeighbours suits_tiedRanks (by decide) (by decide) one_lt_two (by decide)
  obtain rfl := Except.ok.inj (orderedBy_tiedRanks.symm.trans htable)
  obtain rfl : tied = p := Except.ok.inj hmake
  exact ⟨_, _, _, htable, hmake, reaches_tied _, rfl, hpages _ (reaches_tied _)⟩

end Keyset
