import Keyset.Proofs.Navigation

/-!
# Offsets that lead past a run

A token may have a larger offset than its scalar has records, as when some of them were removed since
it was made. Its page keeps the offset, but the tokens of the page name the scalar of a record at the
edge of the page, where the same offset counts from another run. They lead to where the page promises
if the offset skips no run, and in a few cases at the end of the listing.
-/
namespace Keyset

variable {R : Type} [Record R]

/-- What a page promises of its tokens: the next page begins with the record that the page announces,
the page itself can be fetched again if it is not the last one, and the previous page announces the
first record of this one. -/
structure Page.KeepsPromises (page : Page (Table R) R) (p : Paginator (Table R)) : Prop where
  next : ∀ item ∈ page.nextItem, ∃ token after, page.nextToken.result = .ok (some token) ∧
    (p.page (some token)).result = .ok after ∧ after.records.head? = some item
  again : page.hasNext = true → ∃ again, (p.page (some page.info)).result = .ok again ∧
    again.records = page.records
  previous : ∀ token before, page.previousToken.result = .ok (some token) →
    (p.page (some token)).result = .ok before → before.nextItem = page.records.head?

namespace Page

variable {page again : Page (Table R) R} {p : Paginator (Table R)} {records : List R}
  {first start : Nat}

theorem Shows.first_eq (h : page.Shows p first) (hagain : again.Shows p start)
    (hnodup : p.store.records.Nodup) (hlt : first < p.store.records.length)
    (hrecords : again.records = page.records) : start = first := by
  have hhead : p.store.records[first]? = p.store.records[start]? := by
    rw [← h.head?_records, ← hagain.head?_records, hrecords]
  exact ((List.getElem?_inj hlt hnodup).1 hhead).symm

theorem Aligned.keepsPromises (h : page.Aligned p first) (hp : p.Navigable records)
    (hfirst : page.isFirst = false) : page.KeepsPromises p where
  next item hitem := by
    rw [h.nextItem, Option.mem_def, List.getElem?_eq_some_iff] at hitem
    obtain ⟨hlt, rfl⟩ := hitem
    obtain ⟨token, offset, htoken, hwindow, haligned⟩ := h.next hp hlt
    rw [← Paginator.page_result_eq hp.toServes] at hwindow
    refine ⟨token, _, htoken, hwindow, ?_⟩
    rw [haligned.head?_records, List.getElem?_eq_getElem hlt]
  again hnext := by
    have hwindow := h.again_inside hp hfirst (h.hasNext_iff.1 hnext)
    rw [← Paginator.page_result_eq hp.toServes] at hwindow
    exact ⟨_, hwindow, rfl⟩
  previous token before htoken hbefore := by
    obtain ⟨given, offset, hgiven, hwindow, _⟩ := h.previous hp hfirst
    rw [htoken, Except.ok.injEq, Option.some.injEq] at hgiven
    rw [Paginator.page_result_eq hp.toServes, hgiven, hwindow] at hbefore
    split at hbefore
    · rw [← Except.ok.inj hbefore, h.head?_records]
      rfl
    · cases hbefore

end Page

namespace Paginator

/-- The page of a forward token is the last one, and either the run of its first record does not
fill it, or its previous token leads too close to the start. -/
def EndsListing (p : Paginator (Table R)) (kind : PageKind) (v : Scalar) (offset : Nat) : Prop :=
  kind = .forward ∧ p.store.records.length ≤ p.before v + offset + p.perPage ∧
    ∀ r ∈ p.store.records[p.before v + offset]?,
      p.upTo (p.key.scalarOf r) < p.before v + offset + p.perPage ∨
        min (p.before (p.key.scalarOf r) + offset) (p.store.records.length - 1) ≤ p.perPage

variable {p : Paginator (Table R)} {records : List R} {v : Scalar} {offset first : Nat}

/-- The previous token of a forward page, by the position that it leads to. -/
theorem pageFrom_previous (hp : p.Navigable records) (hlt : first < p.store.records.length)
    (hoffset : offset ≤ p.store.records.length) :
    ∃ token given stop, (p.pageFrom first offset false).previousToken.result = .ok (some token) ∧
      p.window (some token) =
        (if p.perPage < stop then .ok (p.pageBefore stop given) else .error .startOfSequence) ∧
      stop = if first + p.perPage ≤ p.upTo (p.key.scalarOf p.store.records[first])
        then min (p.before (p.key.scalarOf p.store.records[first]) + offset)
          (p.upTo (p.key.scalarOf p.store.records[first]) - 1)
        else first := by
  have hshows : (p.pageFrom first offset false).Shows p first := Page.shows_pageFrom hoffset false
  have hbefore := hp.isSorted.before_getElem_le hlt
  have hupTo := hp.isSorted.lt_upTo_getElem hlt
  obtain ⟨token, htoken, hwindow⟩ := hshows.previous_window hp rfl hlt
  rw [boundaryWindow_backward rfl] at hwindow
  refine ⟨token, _, _, htoken, hwindow, ?_⟩
  have hforward : (p.pageFrom first offset false).forward = true := rfl
  have hgiven : (p.pageFrom first offset false).offset = offset := rfl
  rw [Page.previousOffset, if_pos hforward, hgiven]
  by_cases hfills : first + p.perPage ≤ p.upTo (p.key.scalarOf p.store.records[first])
  · rw [if_pos hfills, if_pos hfills]
    omega
  · rw [if_neg hfills, if_neg hfills]
    omega

theorem keepsPromises_of_endsListing (hp : p.Navigable records)
    (hlt : p.before v + offset < p.store.records.length)
    (h : p.EndsListing .forward v offset) :
    (p.pageFrom (p.before v + offset) offset false).KeepsPromises p := by
  have hoffset : offset ≤ p.store.records.length := by omega
  have hshows : (p.pageFrom (p.before v + offset) offset false).Shows p (p.before v + offset) :=
    Page.shows_pageFrom hoffset false
  obtain ⟨_, hend, hright⟩ := h
  have hright := hright _ (List.getElem?_eq_getElem hlt)
  have hle := p.upTo_le (v := p.key.scalarOf p.store.records[p.before v + offset])
  constructor
  · intro item hitem
    rw [hshows.nextItem, List.getElem?_eq_none hend] at hitem
    cases hitem
  · intro hnext
    have := hshows.hasNext_iff.1 hnext
    omega
  · intro token before htoken hbefore
    obtain ⟨token', given, stop, hgiven, hwindow, hstop⟩ :=
      pageFrom_previous hp hlt hoffset
    rw [htoken, Except.ok.injEq, Option.some.injEq] at hgiven
    rw [page_result_eq hp.toServes, hgiven, hwindow] at hbefore
    split at hbefore
    · next hfar =>
      have hsame : stop = p.before v + offset := by
        split at hstop
        · omega
        · exact hstop
      rw [← Except.ok.inj hbefore, hshows.head?_records, hsame]
      rfl
    · cases hbefore

theorem keepsPromises (hp : p.Navigable records) {page : Page (Table R) R} {kind : PageKind}
    (hkind : kind = .forward ∨ kind = .backward)
    (hpage : p.boundaryWindow kind v offset = .ok page)
    (h : p.SkipsNoRun kind v offset ∨ p.EndsListing kind v offset) : page.KeepsPromises p := by
  rcases h with hskips | hends
  · obtain ⟨hfirst, first, haligned⟩ := aligned_of_skipsNoRun hkind hpage hskips
    exact haligned.keepsPromises hp hfirst
  · obtain rfl := hends.1
    obtain ⟨hlt, rfl⟩ := eq_pageFrom hpage
    exact keepsPromises_of_endsListing hp hlt hends

theorem forward_of_keepsPromises (hp : p.Navigable records) (hv : v.fits p.key.kind = true)
    (hnodup : p.store.records.Nodup) (hlt : p.before v + offset < p.store.records.length)
    (h : (p.pageFrom (p.before v + offset) offset false).KeepsPromises p) :
    p.SkipsNoRun .forward v offset ∨ p.EndsListing .forward v offset := by
  have hper := p.one_lt_perPage
  have hoffset : offset ≤ p.store.records.length := by omega
  have hshows : (p.pageFrom (p.before v + offset) offset false).Shows p (p.before v + offset) :=
    Page.shows_pageFrom hoffset false
  have hge := hp.isSorted.before_le_before_getElem hv hlt (Nat.le_add_right _ _)
  have hself := hp.isSorted.before_getElem_le hlt
  by_cases hskips : p.before (p.key.scalarOf p.store.records[p.before v + offset]) = p.before v
  · left
    intro r hr
    rw [Option.mem_def, List.getElem?_eq_getElem hlt, Option.some.injEq] at hr
    rw [← hr, hskips]
  · by_cases hnext : p.before v + offset + p.perPage < p.store.records.length
    · exfalso
      obtain ⟨again, hagain, hrecords⟩ := h.again (hshows.hasNext_iff.2 hnext)
      rw [page_result_eq hp.toServes, hshows.again_forward hp rfl rfl hlt hnext] at hagain
      obtain ⟨hlt', rfl⟩ := eq_pageFrom hagain
      have hfirst := hshows.first_eq (Page.shows_pageFrom hoffset false) hnodup hlt hrecords
      have hgiven : (p.pageFrom (p.before v + offset) offset false).offset = offset := rfl
      omega
    · right
      refine ⟨rfl, not_lt.1 hnext, ?_⟩
      intro r hr
      rw [Option.mem_def, List.getElem?_eq_getElem hlt, Option.some.injEq] at hr
      subst hr
      by_contra hwrong
      rw [not_or, not_lt, not_le] at hwrong
      obtain ⟨hfills, hfar⟩ := hwrong
      have hle := p.upTo_le (v := p.key.scalarOf p.store.records[p.before v + offset])
      obtain ⟨token, given, stop, htoken, hwindow, hstop⟩ := pageFrom_previous hp hlt hoffset
      rw [if_pos hfills] at hstop
      have hall : p.upTo (p.key.scalarOf p.store.records[p.before v + offset]) =
          p.store.records.length := by omega
      rw [if_pos (by omega), ← page_result_eq hp.toServes] at hwindow
      have hitem := h.previous token _ htoken hwindow
      rw [hshows.head?_records] at hitem
      have hsame := (List.getElem?_inj hlt hnodup).1 hitem.symm
      omega

theorem backward_of_keepsPromises (hp : p.Navigable records) (hnodup : p.store.records.Nodup)
    (hfar : p.perPage < p.upTo v - offset - 1)
    (h : (p.pageBefore (p.upTo v - offset - 1) offset).KeepsPromises p) :
    p.SkipsNoRun .backward v offset := by
  have hle := p.upTo_le (v := v)
  have hoffset : offset ≤ p.store.records.length := by omega
  have hshows : (p.pageBefore (p.upTo v - offset - 1) offset).Shows p
      (p.upTo v - offset - 1 - p.perPage) := Page.shows_pageBefore (by omega) hoffset
  have hnext : p.upTo v - offset - 1 - p.perPage + p.perPage < p.store.records.length := by omega
  intro r hr
  have hsame : p.store.records[p.upTo v - offset - 1 - p.perPage + p.perPage] = r := by
    rw [Option.mem_def, List.getElem?_eq_some_iff] at hr
    obtain ⟨_, rfl⟩ := hr
    simp only [Nat.sub_add_cancel hfar.le]
  obtain ⟨again, hagain, hrecords⟩ := h.again (hshows.hasNext_iff.2 hnext)
  rw [page_result_eq hp.toServes, hshows.again_backward hp rfl rfl hnext, hsame] at hagain
  obtain ⟨hfar', rfl⟩ := eq_pageBefore hagain
  have hgiven : (p.pageBefore (p.upTo v - offset - 1) offset).offset = offset := rfl
  rw [hgiven] at hfar' hrecords
  have hfirst := hshows.first_eq (Page.shows_pageBefore hfar'.le hoffset) hnodup (by omega) hrecords
  omega

/-- In every listing, the page of a token keeps its promises if the offset of the token skips no run
or the page ends the listing and does not need it, and if the records differ, only then. -/
theorem keepsPromises_iff_skipsNoRun_or_endsListing {key : SortKey} {perPage : Nat}
    (hsuits : key.Suits records) (hback : key.DecodesBack records)
    (hlength : records.length ≤ maxLength) (hper : 1 < perPage) (hmany : perPage < records.length) :
    ∃ table p, Table.orderedBy key records = .ok table ∧
      make table key perPage records.length = .ok p ∧
      ∀ (token : Token) (page : Page (Table R) R), token.kind = .forward ∨ token.kind = .backward →
        (p.page (some token)).result = .ok page →
        ∃ v, token.value.bind p.key.kind.ofJson? = some v ∧
          (p.SkipsNoRun token.kind v token.offset ∨ p.EndsListing token.kind v token.offset →
            page.KeepsPromises p) ∧
          ((records.map Record.id).Nodup → page.KeepsPromises p →
            p.SkipsNoRun token.kind v token.offset ∨ p.EndsListing token.kind v token.offset) := by
  obtain ⟨table, p, htable, hmake, hp⟩ := exists_navigable hsuits hback hlength hper hmany
  refine ⟨table, p, htable, hmake, ?_⟩
  intro token page hkind hpage
  rw [page_result_eq hp.toServes] at hpage
  obtain ⟨v, hv, hfit, hwindow⟩ := window_boundary hp.many hkind hpage
  refine ⟨v, hv, keepsPromises hp hkind hwindow, ?_⟩
  intro hids hkeeps
  have hnodup : p.store.records.Nodup := hp.perm.nodup_iff.2 (List.Nodup.of_map _ hids)
  rcases hkind with hforward | hbackward
  · rw [hforward] at hwindow ⊢
    obtain ⟨hlt, rfl⟩ := eq_pageFrom hwindow
    exact forward_of_keepsPromises hp hfit hnodup hlt hkeeps
  · rw [hbackward] at hwindow ⊢
    obtain ⟨hfar, rfl⟩ := eq_pageBefore hwindow
    exact .inl (backward_of_keepsPromises hp hnodup hfar hkeeps)

end Paginator

theorem keepsPromises_ranked :
    ∃ table p, Table.orderedBy (rankKey true) (ranked [.int 2, .null, .int 2, .int 1]) = .ok table ∧
      Paginator.make table (rankKey true) 2 4 = .ok p ∧
      ∀ (token : Token) (page : Page (Table Row) Row),
        token.kind = .forward ∨ token.kind = .backward →
        (p.page (some token)).result = .ok page →
        ∃ v, token.value.bind p.key.kind.ofJson? = some v ∧
          (p.SkipsNoRun token.kind v token.offset ∨ p.EndsListing token.kind v token.offset →
            page.KeepsPromises p) ∧
          (((ranked [.int 2, .null, .int 2, .int 1]).map Record.id).Nodup →
            page.KeepsPromises p →
            p.SkipsNoRun token.kind v token.offset ∨ p.EndsListing token.kind v token.offset) :=
  Paginator.keepsPromises_iff_skipsNoRun_or_endsListing ⟨by decide, by decide⟩ (by decide)
    (by decide) (by decide) (by decide)

/-- A page whose offset skips the runs of two ranks. Its own token fetches the page after it. -/
theorem exists_not_keepsPromises :
    (rankKey false).Suits (ranked [.int 1, .int 2, .int 3, .int 4, .int 5, .int 6, .int 7]) ∧
    (rankKey false).DecodesBack (ranked [.int 1, .int 2, .int 3, .int 4, .int 5, .int 6, .int 7]) ∧
    ∃ table p, Table.orderedBy (rankKey false)
        (ranked [.int 1, .int 2, .int 3, .int 4, .int 5, .int 6, .int 7]) = .ok table ∧
      Paginator.make table (rankKey false) 2 7 = .ok p ∧
      ∃ page again : Page (Table Row) Row,
        (p.page (some (.forward "rank" (.integer 1) 2))).result = .ok page ∧
        page.records.map Row.id = [3, 4] ∧ page.nextItem.map Row.id = some 5 ∧
        (p.page (some page.info)).result = .ok again ∧ again.records.map Row.id = [5, 6] ∧
        ¬ page.KeepsPromises p := by
  refine ⟨⟨by decide, by decide⟩, by decide, _, _, rfl, rfl, _, _, rfl, ?_, ?_, rfl, ?_, ?_⟩
  · decide
  · decide
  · decide
  · intro h
    obtain ⟨again, hagain, hrecords⟩ := h.again (by decide)
    rw [← Except.ok.inj hagain] at hrecords
    revert hrecords
    decide

end Keyset
