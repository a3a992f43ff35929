import Keyset.Proofs.RunOffsets

/-!
# Pages that are fetched again

A page does not remember the token that it was fetched with. It makes the token for itself from the
record at its boundary and from its offset, and for a page that is reached these name the position
that the page is at. Only a forward page at the end of the listing is not found again: its token is
that of the last page, which may start earlier.
-/
namespace Keyset

variable {R : Type} [Record R]

/-- Where the token of a page itself leads. A page that has a next record, that is the first one or
that was fetched as the last one comes back as it was, but without the counts it has learned. From a
forward page at the end, the last page is reached, and it ends with the records of that page. -/
structure Page.FindsAgain (page : Page (Table R) R) (p : Paginator (Table R)) : Prop where
  same : page.hasNext = true ∨ page.isFirst = true ∨ page.forward = false →
    (p.page (some page.info)).result = .ok (page.withCounts [])
  last : page.hasNext = false → page.isFirst = false → page.forward = true →
    page.info = .last p.key.key ∧ ∃ last, (p.page (some page.info)).result = .ok last ∧
      page.records <:+ last.records ∧ last.nextItem = none ∧
      ∃ r, page.records.getLast? = some r ∧ last.records.getLast? = some r

namespace Page

variable {p : Paginator (Table R)} {records : List R} {page : Page (Table R) R} {first : Nat}

theorem Shows.again_first (h : page.Shows p 0) (hfirst : page.isFirst = true)
    (hforward : page.forward = true) (hoffset : page.offset = 0) :
    p.window (some page.info) = .ok (page.withCounts []) := by
  rw [Shows.info_first hfirst, Paginator.window_first, h.eq_pageFrom hforward, hoffset, hfirst]

namespace Aligned

/-- The token of a page leads to the page itself, unless it is a forward page at the end. -/
theorem again_same (h : page.Aligned p first) (hp : p.Navigable records)
    (hkind : page.hasNext = true ∨ page.isFirst = true ∨ page.forward = false) :
    p.window (some page.info) = .ok (page.withCounts []) := by
  cases hfirst : page.isFirst with
  | true =>
    obtain ⟨hforward, rfl⟩ := h.isFirst hfirst
    have hposition := h.forward hforward
    exact h.toShows.again_first hfirst hforward (by omega)
  | false =>
    by_cases hlt : first + p.perPage < p.store.records.length
    · exact h.again_inside hp hfirst hlt
    · have hforward : page.forward = false := by
        rw [h.hasNext_iff, hfirst] at hkind
        simpa [hlt] using hkind
      obtain ⟨hoffset, hend⟩ := h.last hforward (not_lt.1 hlt)
      rw [h.info_last hfirst (not_lt.1 hlt), Paginator.window_last hp.many,
        h.eq_pageBefore hforward hfirst, hoffset, hend]

theorem records_eq_drop (h : page.Aligned p first)
    (hend : p.store.records.length ≤ first + p.perPage) :
    page.records = p.store.records.drop first := by
  rw [h.records, List.take_of_length_le]
  rw [List.length_drop]
  omega

/-- The records of a page at the end are at the end of the last page. -/
theorem records_suffix (h : page.Aligned p first)
    (hend : p.store.records.length ≤ first + p.perPage) :
    page.records <:+ (p.pageBefore p.store.records.length 0).records := by
  rw [h.records_eq_drop hend, Paginator.pageBefore, List.take_length]
  exact List.drop_suffix_drop_left _ (by omega)

theorem findsAgain (h : page.Aligned p first) (hp : p.Navigable records) :
    page.FindsAgain p where
  same hkind := by
    rw [Paginator.page_result_eq hp.toServes]
    exact h.again_same hp hkind
  last hnext hfirst _ := by
    have hend : p.store.records.length ≤ first + p.perPage := by
      rw [Bool.eq_false_iff, Ne, h.hasNext_iff, not_lt] at hnext
      exact hnext
    have hinfo := h.info_last hfirst hend
    have hwindow := Paginator.window_last hp.many
    rw [← hinfo, ← Paginator.page_result_eq hp.toServes] at hwindow
    have hsuffix := h.records_suffix hend
    have hne : page.records ≠ [] := by
      rw [h.records_eq_cons h.lt]
      exact List.cons_ne_nil _ _
    refine ⟨hinfo, _, hwindow, hsuffix, List.getElem?_eq_none le_rfl, page.records.getLast hne,
      List.getLast?_eq_some_getLast hne, ?_⟩
    rw [hsuffix.getLast hne]
    exact List.getLast?_eq_some_getLast _

end Aligned

theorem ShowsAll.findsAgain (h : page.ShowsAll p) (hp : p.Serves records) :
    page.FindsAgain p where
  same _ := by
    rw [Paginator.page_result_eq hp]
    exact h.toShows.again_first h.isFirst h.forward h.offset_eq
  last _ hfirst _ := by
    rw [h.isFirst] at hfirst
    cases hfirst

end Page

namespace Paginator

variable {p : Paginator (Table R)} {records : List R} {page : Page (Table R) R}

theorem Reaches.findsAgain (hp : p.Serves records) (hback : p.key.DecodesBack records)
    (h : p.Reaches p.EntersRun page) : page.FindsAgain p := by
  have hlength := hp.length_eq
  by_cases hmany : p.perPage < p.store.records.length
  · have hnav := hp.navigable hback (by omega)
    obtain ⟨first, haligned⟩ := h.aligned hnav
    exact haligned.findsAgain hnav
  · exact (h.showsAll hp (not_lt.1 hmany)).findsAgain hp

theorem isFirst_or_backward_of_last (hp : p.Serves records) {token : Token}
    (hkind : token.kind = .last) (hpage : (p.page (some token)).result = .ok page) :
    page.isFirst = true ∨ page.forward = false := by
  rw [page_result_eq hp] at hpage
  by_cases hmany : p.perPage < p.store.records.length
  · rw [window_of_last hmany hkind hpage]
    exact .inr rfl
  · rw [window_of_few (not_lt.1 hmany), Except.ok.injEq] at hpage
    exact .inl (hpage ▸ rfl)

end Paginator

/-- In every listing, each page that is reached is found again by its own token, and only a forward
page at the end as the last part of the last page. -/
theorem reached_pages_findAgain {key : SortKey} {records : List R} {perPage : Nat}
    (hsuits : key.Suits records) (hback : key.DecodesBack records)
    (hlength : records.length ≤ maxLength) (hper : 1 < perPage) :
    ∃ table p, Table.orderedBy key records = .ok table ∧
      Paginator.make table key perPage records.length = .ok p ∧
      (∀ page, p.Reaches p.EntersRun page → page.FindsAgain p) ∧
      ∀ (token : Token) (page : Page (Table R) R), token.kind = .last →
        (p.page (some token)).result = .ok page → page.isFirst = true ∨ page.forward = false := by
  obtain ⟨table, p, htable, hmake, hp, _, rfl, _⟩ :=
    Paginator.exists_serves hsuits hlength hper
  exact ⟨table, p, htable, hmake, fun page hpage => hpage.findsAgain hp hback,
    fun token page hkind hpage => Paginator.isFirst_or_backward_of_last hp hkind hpage⟩

theorem reached_pages_findAgain_ranked :
    ∃ table p page last, Table.orderedBy (rankKey true) tiedRanks = .ok table ∧
      Paginator.make table (rankKey true) 2 5 = .ok p ∧
      p.Reaches p.EntersRun page ∧ page.records.map Row.id = [4, 2] ∧ page.FindsAgain p ∧
      p.last.result = .ok last ∧ last.records.map Row.id = [2, 5] ∧ last.FindsAgain p := by
  obtain ⟨table, p, htable, hmake, hpages, _⟩ :=
    reached_pages_findAgain suits_tiedRanks (by decide) (by decide) one_lt_two
  obtain rfl := Except.ok.inj (orderedBy_tiedRanks.symm.trans htable)
  obtain rfl : tied = p := Except.ok.inj hmake
  exact ⟨_, _, _, tied.pageBefore 5 0, htable, hmake, reaches_tied _, rfl,
    hpages _ (reaches_tied _), rfl, rfl, hpages _ (.last rfl)⟩

end Keyset
