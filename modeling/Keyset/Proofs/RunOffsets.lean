import Keyset.Proofs.ReachedPages

/-!
# What offsets count

The offset of a page that is reached counts the records of its boundary's scalar on the far side of
the boundary: before the first record of a forward page, after the next record of a backward page.
Therefore a run is always longer than the offset that is taken from its count.
-/
namespace Keyset

variable {R : Type} [Record R]

namespace Page

/-- A page that has the records from a position on, and the number of records that its offset
counts. -/
structure CountsRun (page : Page (Table R) R) (p : Paginator (Table R)) (first : Nat) : Prop where
  records : page.records = (p.store.records.drop first).take p.perPage
  nextItem : page.nextItem = p.store.records[first + p.perPage]?
  nonempty : page.records = [] → p.store.records = []
  isFirst : page.isFirst = true → page.forward = true ∧ first = 0 ∧ page.offset = 0
  forward : page.forward = true → ∀ r ∈ p.store.records[first]?, page.offset =
    (p.store.records.take first).countP fun s => (p.key.scalarOf s).same (p.key.scalarOf r)
  backward : page.forward = false → ∀ r ∈ page.nextItem, page.offset =
    (p.store.records.drop (first + p.perPage + 1)).countP fun s =>
      (p.key.scalarOf s).same (p.key.scalarOf r)
  last : page.forward = false → page.nextItem = none → page.offset = 0

/-- All events of an answer are counts of runs that are longer than an offset; in particular, there is
no warning that a run is too short. The token then has what remains of the run for its offset: the
count less the offset and one. -/
def CountsBeyond (offset : Nat)
    (answer : Answer (Table R) R (Except (PageError Incomparable) (Option Token))) : Prop :=
  ∀ event ∈ answer.events, ∃ value count remembered token,
    event = .duplicates value count remembered ∧ offset + 1 ≤ count ∧
      answer.result = .ok (some token) ∧ token.offset = count - (offset + 1)

omit [Record R] in
theorem countsBeyond_of_silent {offset : Nat}
    {answer : Answer (Table R) R (Except (PageError Incomparable) (Option Token))}
    (h : answer.events = []) : CountsBeyond offset answer := by
  intro event hevent
  rw [h] at hevent
  cases hevent

variable {p : Paginator (Table R)} {records : List R} {page : Page (Table R) R} {first : Nat}

theorem Aligned.countsRun (h : page.Aligned p first) (hp : p.IsSorted) : page.CountsRun p first where
  records := h.records
  nextItem := h.nextItem
  nonempty hempty := by
    rw [h.records_eq_cons h.lt] at hempty
    cases hempty
  isFirst hfirst := by
    obtain ⟨hforward, rfl⟩ := h.isFirst hfirst
    have hposition := h.forward hforward
    exact ⟨hforward, rfl, by omega⟩
  forward hforward r hr := by
    rw [Option.mem_def, List.getElem?_eq_getElem h.lt, Option.some.injEq] at hr
    subst hr
    have hposition := h.forward hforward
    rw [hp.countP_take (hp.fits_getElem h.lt) (hp.lt_upTo_getElem h.lt).le]
    omega
  backward hforward r hr := by
    rw [Option.mem_def, h.nextItem, List.getElem?_eq_some_iff] at hr
    obtain ⟨hlt, rfl⟩ := hr
    have hposition := h.backward hforward hlt
    have hbefore := hp.before_getElem_le hlt
    rw [hp.countP_drop (hp.fits_getElem hlt) (by omega)]
    omega
  last hforward hnone := by
    rw [h.nextItem, List.getElem?_eq_none_iff] at hnone
    exact (h.last hforward hnone).1

theorem Shows.countsBeyond_remaining (h : page.Shows p first) (hp : p.Holds records) {v : Scalar}
    (hv : v.fits p.key.kind = true) (hlong : page.offset + 1 ≤ p.upTo v - p.before v)
    {make : Nat → Token} (hmake : ∀ offset, (make offset).offset = offset) :
    CountsBeyond page.offset (tokenAt make (page.remainingDuplicates v page.offset)) := by
  have hroom : p.ceiling.Exceeds p.store.records.length := hp.exceeds.mono (by omega)
  obtain ⟨remembered, hevents⟩ := h.remainingDuplicates_events hp.isSorted hroom hv hlong
  have hanswer := (h.remainingDuplicates hp.isSorted hroom hv page.offset).tokenAt make
  intro event hevent
  rw [tokenAt, hevents] at hevent
  exact ⟨v, _, remembered, _, List.mem_singleton.1 hevent, hlong, hanswer.result, hmake _⟩

theorem Aligned.nextToken_countsBeyond (h : page.Aligned p first) (hp : p.Holds records) :
    CountsBeyond page.offset page.nextToken := by
  have hsorted := hp.isSorted
  by_cases hlt : first + p.perPage < p.store.records.length
  · have hbefore := hsorted.before_getElem_le hlt
    rw [h.nextToken_eq hsorted hp.exceeds hlt]
    by_cases hfills : p.before (p.key.scalarOf p.store.records[first + p.perPage]) ≤ first
    · rw [if_pos hfills]
      cases hforward : page.forward with
      | true => exact countsBeyond_of_silent rfl
      | false =>
        -- The next record is of the run and comes before as many as the offset says.
        have hposition := h.backward hforward hlt
        exact h.countsBeyond_remaining hp (hsorted.fits_getElem hlt) (by omega) fun _ => rfl
    · rw [if_neg hfills]
      exact countsBeyond_of_silent rfl
  · have hnone : page.nextItem = none := by
      rw [h.nextItem, List.getElem?_eq_none (not_lt.1 hlt)]
    rw [Page.nextToken, hnone]
    exact countsBeyond_of_silent rfl

theorem Aligned.previousToken_countsBeyond (h : page.Aligned p first) (hp : p.Holds records) :
    CountsBeyond page.offset page.previousToken := by
  have hsorted := hp.isSorted
  cases hfirst : page.isFirst with
  | true =>
    rw [Page.previousToken, hfirst]
    exact countsBeyond_of_silent rfl
  | false =>
    have hupTo := hsorted.lt_upTo_getElem h.lt
    rw [h.previousToken_eq hsorted hp.exceeds hfirst h.lt]
    cases hforward : page.forward with
    | true =>
      -- The first record is of the run and comes after as many as the offset says.
      have hposition := h.forward hforward
      rw [if_pos rfl]
      split
      · exact h.countsBeyond_remaining hp (hsorted.fits_getElem h.lt) (by omega) fun _ => rfl
      · exact countsBeyond_of_silent rfl
    | false =>
      simp only [Bool.false_eq_true, if_false]
      split
      · exact countsBeyond_of_silent rfl
      · exact countsBeyond_of_silent rfl

/-! ## Listings of one page -/

/-- A page that shows all records. -/
structure ShowsAll (page : Page (Table R) R) (p : Paginator (Table R)) : Prop
    extends page.Shows p 0 where
  length_le : p.store.records.length ≤ p.perPage
  isFirst : page.isFirst = true
  forward : page.forward = true
  offset_eq : page.offset = 0

namespace ShowsAll

theorem withCounts (h : page.ShowsAll p) {duplicates : List (Scalar × Nat)}
    (hcounts : p.Counts duplicates) : (page.withCounts duplicates).ShowsAll p :=
  ⟨h.toShows.withCounts hcounts, h.length_le, h.isFirst, h.forward, h.offset_eq⟩

theorem nextItem_eq (h : page.ShowsAll p) : page.nextItem = none := by
  have hle := h.length_le
  rw [h.nextItem, List.getElem?_eq_none (by omega)]

theorem countsRun (h : page.ShowsAll p) : page.CountsRun p 0 where
  records := h.records
  nextItem := h.nextItem
  nonempty hempty := by
    rwa [h.records, List.drop_zero, List.take_of_length_le h.length_le] at hempty
  isFirst _ := ⟨h.forward, rfl, h.offset_eq⟩
  forward _ r _ := by rw [h.offset_eq, List.take_zero, List.countP_nil]
  backward hforward := by
    rw [h.forward] at hforward
    cases hforward
  last _ _ := h.offset_eq

theorem nextToken_countsBeyond (h : page.ShowsAll p) :
    CountsBeyond page.offset page.nextToken := by
  rw [Page.nextToken, h.nextItem_eq]
  exact countsBeyond_of_silent rfl

theorem previousToken_countsBeyond (h : page.ShowsAll p) :
    CountsBeyond page.offset page.previousToken := by
  rw [Page.previousToken, h.isFirst]
  exact countsBeyond_of_silent rfl

end ShowsAll

end Page

namespace Paginator

variable {p : Paginator (Table R)} {records : List R} {page : Page (Table R) R}
  {entry : Token → Prop}

/-- If one page holds all records, every token leads to it. -/
theorem window_of_few (hfew : p.store.records.length ≤ p.perPage) (token : Option Token) :
    p.window token = .ok (p.pageFrom 0 0 true) := by
  cases token with
  | none => rfl
  | some token => rw [window, if_pos (.inr hfew)]

/-- If one page holds all records, no other page is reached. -/
theorem Reaches.showsAll (hp : p.Serves records) (hfew : p.store.records.length ≤ p.perPage)
    (h : p.Reaches entry page) : page.ShowsAll p := by
  have hall : (p.pageFrom 0 0 true).ShowsAll p :=
    ⟨Page.shows_pageFrom (Nat.zero_le _) true, hfew, rfl, rfl, rfl⟩
  induction h with
  | first hpage =>
    rw [page_result_eq hp, window_of_few hfew, Except.ok.injEq] at hpage
    exact hpage ▸ hall
  | last hpage =>
    rw [last_eq, page_result_eq hp, window_of_few hfew, Except.ok.injEq] at hpage
    exact hpage ▸ hall
  | enter _ hpage =>
    rw [page_result_eq hp, window_of_few hfew, Except.ok.injEq] at hpage
    exact hpage ▸ hall
  | follow _ _ hpage _ =>
    rw [page_result_eq hp, window_of_few hfew, Except.ok.injEq] at hpage
    exact hpage ▸ hall
  | askNext _ ih =>
    obtain ⟨_, duplicates, hcounts, hasked⟩ := ih.toShows.nextToken_none (by omega)
    rw [hasked]
    exact ih.withCounts hcounts
  | askPrevious _ ih =>
    obtain ⟨_, duplicates, hcounts, hasked⟩ := ih.toShows.previousToken_none ih.isFirst
    rw [hasked]
    exact ih.withCounts hcounts

private theorem firstPage_events (p : Paginator (Table R)) :
    ∀ event ∈ (p.firstPage (R := R)).events, event.level = "DEBUG" := by
  rw [firstPage]
  split
  · simp
  · simp [Event.level]

private theorem boundaryPage_events (p : Paginator (Table R)) (token : Token) :
    ∀ event ∈ (p.boundaryPage (R := R) token).events, event.level = "DEBUG" := by
  rw [boundaryPage]
  split
  · simp
  · simp [Event.level]

theorem page_events (p : Paginator (Table R)) (token : Option Token) :
    ∀ event ∈ (p.page (R := R) token).events, event.level = "DEBUG" := by
  cases token with
  | none => exact p.firstPage_events
  | some token =>
    rw [page]
    split
    · exact p.boundaryPage_events token
    · exact p.firstPage_events

theorem Reaches.countsRun (hp : p.Serves records) (hback : p.key.DecodesBack records)
    (h : p.Reaches p.EntersRun page) :
    (∃ first, page.CountsRun p first) ∧ Page.CountsBeyond page.offset page.nextToken ∧
      Page.CountsBeyond page.offset page.previousToken := by
  have hlength := hp.length_eq
  by_cases hmany : p.perPage < p.store.records.length
  · have hnav := hp.navigable hback (by omega)
    obtain ⟨first, haligned⟩ := h.aligned hnav
    exact ⟨⟨first, haligned.countsRun hp.isSorted⟩, haligned.nextToken_countsBeyond hp.toHolds,
      haligned.previousToken_countsBeyond hp.toHolds⟩
  · have hall := h.showsAll hp (not_lt.1 hmany)
    exact ⟨⟨0, hall.countsRun⟩, hall.nextToken_countsBeyond, hall.previousToken_countsBeyond⟩

end Paginator

/-- In every listing, the offset of each page that is reached counts the records of its boundary's
scalar beyond the boundary. Each run that the page asks the store for is longer than that, and the
token has the rest of it for its offset. So there is no warning, neither then nor when a page is
found. -/
theorem reached_pages_countRun {key : SortKey} {records : List R} {perPage : Nat}
    (hsuits : key.Suits records) (hback : key.DecodesBack records)
    (hlength : records.length ≤ maxLength) (hper : 1 < perPage) :
    ∃ table p, Table.orderedBy key records = .ok table ∧
      Paginator.make table key perPage records.length = .ok p ∧
      (∀ page, p.Reaches p.EntersRun page → (∃ first, page.CountsRun p first) ∧
        Page.CountsBeyond page.offset page.nextToken ∧
        Page.CountsBeyond page.offset page.previousToken) ∧
      ∀ token, ∀ event ∈ (p.page (R := R) token).events, event.level = "DEBUG" := by
  obtain ⟨table, p, htable, hmake, hp, _, rfl, _⟩ :=
    Paginator.exists_serves hsuits hlength hper
  exact ⟨table, p, htable, hmake, fun page hpage => hpage.countsRun hp hback, p.page_events⟩

theorem reached_pages_countRun_ranked :
    ∃ table p page, Table.orderedBy (rankKey true) tiedRanks = .ok table ∧
      Paginator.make table (rankKey true) 2 5 = .ok p ∧
      p.Reaches p.EntersRun page ∧ page.offset = 2 ∧ (∃ first, page.CountsRun p first) ∧
      Page.CountsBeyond page.offset page.nextToken ∧
      Page.CountsBeyond page.offset page.previousToken := by
  obtain ⟨table, p, htable, hmake, hpages, _⟩ :=
    reached_pages_countRun suits_tiedRanks (by decide) (by decide) one_lt_two
  obtain rfl := Except.ok.inj (orderedBy_tiedRanks.symm.trans htable)
  obtain rfl : tied = p := Except.ok.inj hmake
  exact ⟨_, _, _, htable, hmake, reaches_tied _, rfl, hpages _ (reaches_tied _)⟩

end Keyset
