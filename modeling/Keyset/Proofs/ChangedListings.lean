import Keyset.Proofs.ReachedPages

/-!
# Listings that change elsewhere

A token names a record by its scalar and by its place in the run of this scalar. In another listing
by the same key that has the same run, it names the same record, wherever the run has moved to and
whatever comes before and after it.
-/
namespace Keyset

variable {R : Type} [Record R]

namespace Paginator

variable {p q : Paginator (Table R)} {v : Scalar}

/-- Where two tables have the same run, its records are at the same distance from the cuts. -/
theorem getElem?_of_run_eq (hp : p.IsSorted) (hq : q.IsSorted) (hv : v.fits p.key.kind = true)
    (hv' : v.fits q.key.kind = true) (hrun : p.run v = q.run v) {i j : Nat}
    (hbefore : p.before v ≤ i) (hupTo : i < p.upTo v) (hj : q.before v + i = j + p.before v) :
    q.store.records[j]? = p.store.records[i]? := by
  have hlength := congrArg List.length hrun
  rw [hp.length_run hv, hq.length_run hv'] at hlength
  have hplace : j - q.before v = i - p.before v := by omega
  rw [← hp.getElem?_run hv hbefore hupTo, hrun, ← hplace, hq.getElem?_run hv' (by omega) (by omega)]

end Paginator

/-- A page whose tokens lead, in another listing with the same run of the token's scalar, to the
records beside the page's own edge: from the next record on, and up to the first record. -/
structure Page.LeadsInto (page : Page (Table R) R) (p q : Paginator (Table R)) : Prop where
  next : ∀ item ∈ page.nextItem, ∃ token v, page.nextToken.result = .ok (some token) ∧
    token.value.bind p.key.kind.ofJson? = some v ∧
    (p.run v = q.run v → ∃ start after, q.store.records[start]? = some item ∧
      (q.page (some token)).result = .ok after ∧ after.records.head? = some item ∧
      after.records = (q.store.records.drop start).take q.perPage)
  previous : page.isFirst = false → ∃ item token v, page.records.head? = some item ∧
    page.previousToken.result = .ok (some token) ∧
    token.value.bind p.key.kind.ofJson? = some v ∧
    (p.run v = q.run v → ∃ stop, q.store.records[stop]? = some item ∧
      (q.perPage < stop → ∃ before, (q.page (some token)).result = .ok before ∧
        before.records = (q.store.records.take stop).drop (stop - q.perPage) ∧
        before.nextItem = some item) ∧
      (stop ≤ q.perPage → (q.page (some token)).result = .error .startOfSequence))

namespace Page.Aligned

variable {p q : Paginator (Table R)} {records others : List R} {page : Page (Table R) R}
  {first : Nat}

/-! The offsets of the tokens stay below the length of the run, so that they name a record of the run
in the other listing as well. -/

theorem next_of_run_eq (h : page.Aligned p first) (hp : p.Navigable records) (hq : q.Serves others)
    (hkey : q.key = p.key) {v : Scalar} (hv : v.fits p.key.kind = true)
    (hlt : first + p.perPage < p.store.records.length)
    (hsame : (p.key.scalarOf p.store.records[first + p.perPage]).same v = true)
    (hrun : p.run v = q.run v) :
    q.store.records[q.before v +
        page.nextOffset p first (p.key.scalarOf p.store.records[first + p.perPage])]? =
      some p.store.records[first + p.perPage] := by
  have hfit := hp.isSorted.fits_getElem hlt
  have hposition := h.nextOffset_eq hp.isSorted hlt
  have hupTo := hp.isSorted.lt_upTo_getElem hlt
  rw [hp.isSorted.before_congr hfit hv hsame] at hposition
  rw [hp.isSorted.upTo_congr hfit hv hsame] at hupTo
  rw [← List.getElem?_eq_getElem hlt]
  exact Paginator.getElem?_of_run_eq hp.isSorted hq.isSorted hv (hkey ▸ hv) hrun (by omega) hupTo
    (by omega)

theorem previous_of_run_eq (h : page.Aligned p first) (hp : p.Navigable records)
    (hq : q.Serves others) (hkey : q.key = p.key) {v : Scalar} (hv : v.fits p.key.kind = true)
    (hlt : first < p.store.records.length)
    (hsame : (p.key.scalarOf p.store.records[first]).same v = true)
    (hrun : p.run v = q.run v) :
    q.store.records[q.upTo v -
        page.previousOffset p first (p.key.scalarOf p.store.records[first]) - 1]? =
      some p.store.records[first] := by
  have hfit := hp.isSorted.fits_getElem hlt
  have hposition := h.previousOffset_eq hp.isSorted hlt
  have hbefore := hp.isSorted.before_getElem_le hlt
  have hlength := congrArg List.length hrun
  rw [hp.isSorted.length_run hv, hq.isSorted.length_run (hkey ▸ hv)] at hlength
  rw [hp.isSorted.upTo_congr hfit hv hsame] at hposition
  rw [hp.isSorted.before_congr hfit hv hsame] at hbefore
  -- Counted from the end of the run, the place in the other table follows from equal lengths.
  rw [← List.getElem?_eq_getElem hlt]
  exact Paginator.getElem?_of_run_eq hp.isSorted hq.isSorted hv (hkey ▸ hv) hrun hbefore (by omega)
    (by omega)

theorem leadsInto (h : page.Aligned p first) (hp : p.Navigable records) (hq : q.Serves others)
    (hmany : q.perPage < q.store.records.length) (hkey : q.key = p.key) : page.LeadsInto p q where
  next item hitem := by
    rw [h.nextItem, Option.mem_def, List.getElem?_eq_some_iff] at hitem
    obtain ⟨hlt, rfl⟩ := hitem
    obtain ⟨v, hvalue, hsame⟩ := hp.decodesBack _ (List.getElem_mem hlt)
    refine ⟨_, v, (h.toShows.nextToken hp.isSorted hp.exceeds hlt).result, hvalue, ?_⟩
    intro hrun
    have hitem := h.next_of_run_eq hp hq hkey (ScalarKind.fits_of_ofJson? hvalue) hlt hsame hrun
    obtain ⟨hstart, _⟩ := List.getElem?_eq_some_iff.1 hitem
    rw [Option.mem_def, ← hkey] at hvalue
    have hwindow := Paginator.window_of_ofJson? hmany (.inl rfl) hvalue
      (page.nextOffset p first (p.key.scalarOf p.store.records[first + p.perPage]))
    rw [Paginator.boundaryWindow_forward rfl hstart, hkey, ← Paginator.page_result_eq hq] at hwindow
    refine ⟨_, _, hitem, hwindow, ?_, rfl⟩
    rw [(Page.shows_pageFrom (by omega) false).head?_records, hitem]
  previous hfirst := by
    have hlt := h.lt
    obtain ⟨v, hvalue, hsame⟩ := hp.decodesBack _ (List.getElem_mem hlt)
    refine ⟨p.store.records[first], _, v, ?_,
      (h.toShows.previousToken hp.isSorted hp.exceeds hfirst hlt).result, hvalue, ?_⟩
    · rw [h.head?_records, List.getElem?_eq_getElem hlt]
    intro hrun
    have hitem := h.previous_of_run_eq hp hq hkey (ScalarKind.fits_of_ofJson? hvalue) hlt hsame hrun
    rw [Option.mem_def, ← hkey] at hvalue
    have hwindow := Paginator.window_of_ofJson? hmany (.inr rfl) hvalue
      (page.previousOffset p first (p.key.scalarOf p.store.records[first]))
    rw [Paginator.boundaryWindow_backward rfl, hkey, ← Paginator.page_result_eq hq] at hwindow
    refine ⟨_, hitem, ?_, ?_⟩
    · intro hfar
      exact ⟨_, hwindow.trans (if_pos hfar), rfl, hitem⟩
    · intro hnear
      exact hwindow.trans (if_neg (not_lt.2 hnear))

end Page.Aligned

/-- In every two listings by one key, each of more records than one page holds, the tokens of each
page that is reached in the first one lead into the second one. -/
theorem reached_pages_leadInto {key : SortKey} {records others : List R} {perPage : Nat}
    (hper : 1 < perPage) (hsuits : key.Suits records) (hback : key.DecodesBack records)
    (hlength : records.length ≤ maxLength) (hmany : perPage < records.length)
    (hsuits' : key.Suits others) (hlength' : others.length ≤ maxLength)
    (hmany' : perPage < others.length) :
    ∃ table p other q, Table.orderedBy key records = .ok table ∧
      Paginator.make table key perPage records.length = .ok p ∧
      Table.orderedBy key others = .ok other ∧
      Paginator.make other key perPage others.length = .ok q ∧
      ∀ page, p.Reaches p.EntersRun page → page.LeadsInto p q := by
  obtain ⟨table, p, htable, hmake, hp, _, rfl, rfl⟩ :=
    Paginator.exists_serves hsuits hlength hper
  obtain ⟨other, q, hother, hmake', hq, _, hkey, hperPage⟩ :=
    Paginator.exists_serves hsuits' hlength' hper
  have hlengthEq := hq.length_eq
  have hnav := hp.navigable hback hmany
  refine ⟨table, p, other, q, htable, hmake, hother, hmake', ?_⟩
  intro page hpage
  obtain ⟨first, haligned⟩ := hpage.aligned hnav
  exact haligned.leadsInto hnav hq (by omega) hkey

/-- Another listing with the runs of the listing with ties, and with a record above them. -/
theorem reached_pages_leadInto_ranked :
    ∃ table p other q page, Table.orderedBy (rankKey true) tiedRanks = .ok table ∧
      Paginator.make table (rankKey true) 2 5 = .ok p ∧
      Table.orderedBy (rankKey true) (tiedRanks ++ [⟨6, [("rank", .int 3)]⟩]) = .ok other ∧
      Paginator.make other (rankKey true) 2 6 = .ok q ∧
      p.Reaches p.EntersRun page ∧ page.records.map Row.id = [4, 2] ∧ page.LeadsInto p q := by
  have hsuits : (rankKey true).Suits (tiedRanks ++ [⟨6, [("rank", .int 3)]⟩]) :=
    ⟨by decide, by decide⟩
  obtain ⟨table, p, other, q, htable, hmake, hother, hmake', hpages⟩ :=
    reached_pages_leadInto one_lt_two suits_tiedRanks (by decide) (by decide) (by decide) hsuits
      (by decide) (by decide)
  obtain rfl := Except.ok.inj (orderedBy_tiedRanks.symm.trans htable)
  obtain rfl : tied = p := Except.ok.inj hmake
  exact ⟨_, _, _, _, _, htable, hmake, hother, hmake', reaches_tied _, rfl,
    hpages _ (reaches_tied _)⟩

end Keyset
