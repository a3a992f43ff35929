import Keyset.Proofs.EmittedTokens
import Keyset.Proofs.TokenWindows

/-!
# Navigation

A page that is reached by tokens counts its offset within the run of its boundary: a forward page
from the start of its first record's run, a backward page from the end of the next record's run.
This is what the tokens of a page need in order to lead to the positions right after and right
before it, and fetching them keeps it.
-/
namespace Keyset

namespace Page

variable {R : Type} [Record R]

/-- A page that shows the records from a position on, with an offset that counts within the run of
its boundary. -/
structure Aligned (page : Page (Table R) R) (p : Paginator (Table R)) (first : Nat) : Prop
    extends page.Shows p first where
  lt : first < p.store.records.length
  forward : page.forward = true →
    p.before (p.key.scalarOf p.store.records[first]) + page.offset = first
  backward : page.forward = false → ∀ h : first + p.perPage < p.store.records.length,
    p.upTo (p.key.scalarOf p.store.records[first + p.perPage]) =
      page.offset + (first + p.perPage) + 1
  pos : page.forward = false → 0 < first
  last : page.forward = false → p.store.records.length ≤ first + p.perPage →
    page.offset = 0 ∧ first + p.perPage = p.store.records.length
  isFirst : page.isFirst = true → page.forward = true ∧ first = 0

variable {page : Page (Table R) R} {p : Paginator (Table R)} {first : Nat}

theorem aligned_pageFrom {offset : Nat} {isFirst : Bool} (hlt : first < p.store.records.length)
    (hforward : p.before (p.key.scalarOf p.store.records[first]) + offset = first)
    (hfirst : isFirst = true → first = 0) : (p.pageFrom first offset isFirst).Aligned p first where
  toShows := shows_pageFrom (by omega) isFirst
  lt := hlt
  forward _ := hforward
  backward h := by cases h
  pos h := by cases h
  last h := by cases h
  isFirst h := ⟨rfl, hfirst h⟩

theorem aligned_firstPage (hp : p.IsSorted) (hlt : 0 < p.store.records.length) :
    (p.pageFrom 0 0 true).Aligned p 0 := by
  have hbefore := hp.before_getElem_le hlt
  exact aligned_pageFrom hlt (by omega) fun _ => rfl

theorem aligned_pageBefore {stop offset : Nat} (hstop : p.perPage < stop)
    (hlt : stop < p.store.records.length)
    (hbackward : p.upTo (p.key.scalarOf p.store.records[stop]) = offset + stop + 1) :
    (p.pageBefore stop offset).Aligned p (stop - p.perPage) where
  toShows := by
    have hle := p.upTo_le (v := p.key.scalarOf p.store.records[stop])
    exact shows_pageBefore (by omega) (by omega)
  lt := by omega
  forward h := by cases h
  backward _ h := by
    simp only [Nat.sub_add_cancel hstop.le]
    exact hbackward
  pos _ := by omega
  last _ h := by omega
  isFirst h := by cases h

theorem aligned_lastPage (hmany : p.perPage < p.store.records.length) :
    (p.pageBefore p.store.records.length 0).Aligned p (p.store.records.length - p.perPage) where
  toShows := shows_pageBefore (by omega) (by omega)
  lt := by
    have hper := p.one_lt_perPage
    omega
  forward h := by cases h
  backward _ h := by omega
  pos _ := by omega
  last _ _ := by
    refine ⟨rfl, ?_⟩
    omega
  isFirst h := by cases h

end Page

namespace Paginator

variable {R : Type} [Record R]

/-- The offset of a token skips no run: as many records come before the record that it leads to as
come before the boundary, or backward, as many up to it. -/
def SkipsNoRun (p : Paginator (Table R)) : PageKind → Scalar → Nat → Prop
  | .forward, v, offset =>
    ∀ r ∈ p.store.records[p.before v + offset]?, p.before (p.key.scalarOf r) = p.before v
  | _, v, offset =>
    ∀ r ∈ p.store.records[p.upTo v - offset - 1]?, p.upTo (p.key.scalarOf r) = p.upTo v

variable {p : Paginator (Table R)} {v : Scalar} {offset : Nat} {page : Page (Table R) R}

/-- A boundary and an offset that skips no run lead to an aligned page. -/
theorem aligned_of_skipsNoRun {kind : PageKind} (hkind : kind = .forward ∨ kind = .backward)
    (hpage : p.boundaryWindow kind v offset = .ok page) (h : p.SkipsNoRun kind v offset) :
    page.isFirst = false ∧ ∃ first, page.Aligned p first := by
  rcases hkind with rfl | rfl
  · obtain ⟨hlt, rfl⟩ := eq_pageFrom hpage
    have hbefore := h _ (List.getElem?_eq_getElem hlt)
    exact ⟨rfl, _, Page.aligned_pageFrom hlt (by rw [hbefore]) fun h => by cases h⟩
  · obtain ⟨hfar, rfl⟩ := eq_pageBefore hpage
    have hle := p.upTo_le (v := v)
    have hlt : p.upTo v - offset - 1 < p.store.records.length := by omega
    have hupTo := h _ (List.getElem?_eq_getElem hlt)
    exact ⟨rfl, _, Page.aligned_pageBefore hfar hlt (by rw [hupTo]; omega)⟩

end Paginator

namespace Page

variable {R : Type} [Record R] {page : Page (Table R) R} {p : Paginator (Table R)} {first : Nat}
  {records : List R}

/-! ## Where the tokens of a page lead -/

namespace Shows

theorem next_window (h : page.Shows p first) (hp : p.Navigable records)
    (hlt : first + p.perPage < p.store.records.length) :
    ∃ token, page.nextToken.result = .ok (some token) ∧
      p.window (some token) =
        p.boundaryWindow .forward (p.key.scalarOf p.store.records[first + p.perPage])
          (page.nextOffset p first (p.key.scalarOf p.store.records[first + p.perPage])) :=
  ⟨_, (h.nextToken hp.isSorted hp.exceeds hlt).result,
    Paginator.window_getElem hp.isSorted hp.decodesBack hp.many hlt (.inl rfl) _⟩

theorem previous_window (h : page.Shows p first) (hp : p.Navigable records)
    (hfirst : page.isFirst = false) (hlt : first < p.store.records.length) :
    ∃ token, page.previousToken.result = .ok (some token) ∧
      p.window (some token) =
        p.boundaryWindow .backward (p.key.scalarOf p.store.records[first])
          (page.previousOffset p first (p.key.scalarOf p.store.records[first])) :=
  ⟨_, (h.previousToken hp.isSorted hp.exceeds hfirst hlt).result,
    Paginator.window_getElem hp.isSorted hp.decodesBack hp.many hlt (.inr rfl) _⟩

theorem again_forward (h : page.Shows p first) (hp : p.Navigable records)
    (hfirst : page.isFirst = false) (hforward : page.forward = true)
    (hlt : first < p.store.records.length)
    (hnext : first + p.perPage < p.store.records.length) :
    p.window (some page.info) =
      p.boundaryWindow .forward (p.key.scalarOf p.store.records[first]) page.offset := by
  rw [h.info_forward hfirst hforward hlt hnext]
  exact Paginator.window_getElem hp.isSorted hp.decodesBack hp.many hlt (.inl rfl) _

theorem again_backward (h : page.Shows p first) (hp : p.Navigable records)
    (hfirst : page.isFirst = false) (hforward : page.forward = false)
    (hlt : first + p.perPage < p.store.records.length) :
    p.window (some page.info) =
      p.boundaryWindow .backward (p.key.scalarOf p.store.records[first + p.perPage])
        page.offset := by
  rw [h.info_backward hfirst hforward hlt]
  exact Paginator.window_getElem hp.isSorted hp.decodesBack hp.many hlt (.inr rfl) _

end Shows

namespace Aligned

theorem withCounts (h : page.Aligned p first) {duplicates : List (Scalar × Nat)}
    (hcounts : p.Counts duplicates) : (page.withCounts duplicates).Aligned p first :=
  ⟨h.toShows.withCounts hcounts, h.lt, h.forward, h.backward, h.pos, h.last, h.isFirst⟩

theorem nextOffset_eq (h : page.Aligned p first) (hp : p.IsSorted)
    (hlt : first + p.perPage < p.store.records.length) :
    p.before (p.key.scalarOf p.store.records[first + p.perPage]) +
      page.nextOffset p first (p.key.scalarOf p.store.records[first + p.perPage]) =
        first + p.perPage := by
  have hfit := hp.fits_getElem hlt
  have hbefore := hp.before_getElem_le hlt
  have hupTo := hp.lt_upTo_getElem hlt
  rw [nextOffset]
  by_cases hfills : p.before (p.key.scalarOf p.store.records[first + p.perPage]) ≤ first
  · -- The first record is of the same run as the next one, so that its offset counts there too.
    obtain ⟨hsame, _⟩ := hp.cuts_getElem hfit h.lt hfills (by omega)
    rw [if_pos hfills]
    cases hkind : page.forward with
    | true =>
      have hposition := h.forward hkind
      rw [if_pos rfl]
      omega
    | false =>
      have hposition := h.backward hkind hlt
      simp only [Bool.false_eq_true, if_false]
      omega
  · rw [if_neg hfills]
    omega

theorem previousOffset_eq (h : page.Aligned p first) (hp : p.IsSorted)
    (hlt : first < p.store.records.length) :
    p.upTo (p.key.scalarOf p.store.records[first]) =
      page.previousOffset p first (p.key.scalarOf p.store.records[first]) + first + 1 := by
  have hfit := hp.fits_getElem hlt
  have hbefore := hp.before_getElem_le hlt
  have hupTo := hp.lt_upTo_getElem hlt
  have hle := p.upTo_le (v := p.key.scalarOf p.store.records[first])
  rw [previousOffset]
  cases hkind : page.forward with
  | true =>
    have hposition := h.forward hkind
    rw [if_pos rfl]
    by_cases hfills : first + p.perPage ≤ p.upTo (p.key.scalarOf p.store.records[first])
    · rw [if_pos hfills]
      omega
    · rw [if_neg hfills]
      omega
  | false =>
    simp only [Bool.false_eq_true, if_false]
    by_cases hfills : first + p.perPage < p.upTo (p.key.scalarOf p.store.records[first])
    · have hlt : first + p.perPage < p.store.records.length := by omega
      obtain ⟨_, hsame⟩ := hp.cuts_getElem hfit hlt (by omega) hfills
      have hposition := h.backward hkind hlt
      rw [if_pos hfills]
      omega
    · rw [if_neg hfills]
      omega

theorem next (h : page.Aligned p first) (hp : p.Navigable records)
    (hlt : first + p.perPage < p.store.records.length) :
    ∃ token offset, page.nextToken.result = .ok (some token) ∧
      p.window (some token) = .ok (p.pageFrom (first + p.perPage) offset false) ∧
      (p.pageFrom (first + p.perPage) offset false).Aligned p (first + p.perPage) := by
  have hposition := h.nextOffset_eq hp.isSorted hlt
  obtain ⟨token, htoken, hwindow⟩ := h.next_window hp hlt
  rw [Paginator.boundaryWindow_forward hposition hlt] at hwindow
  exact ⟨token, _, htoken, hwindow, aligned_pageFrom hlt hposition fun h => by cases h⟩

theorem previous (h : page.Aligned p first) (hp : p.Navigable records)
    (hfirst : page.isFirst = false) :
    ∃ token offset, page.previousToken.result = .ok (some token) ∧
      p.window (some token) =
        (if p.perPage < first then .ok (p.pageBefore first offset) else .error .startOfSequence) ∧
      (p.perPage < first → (p.pageBefore first offset).Aligned p (first - p.perPage)) := by
  have hlt := h.lt
  have hposition := h.previousOffset_eq hp.isSorted hlt
  have hstop : p.upTo (p.key.scalarOf p.store.records[first]) -
      page.previousOffset p first (p.key.scalarOf p.store.records[first]) - 1 = first := by omega
  obtain ⟨token, htoken, hwindow⟩ := h.previous_window hp hfirst hlt
  rw [Paginator.boundaryWindow_backward hstop] at hwindow
  exact ⟨token, _, htoken, hwindow, fun hfar => aligned_pageBefore hfar hlt hposition⟩

/-- The token of a page inside the listing leads to the page itself. -/
theorem again_inside (h : page.Aligned p first) (hp : p.Navigable records)
    (hfirst : page.isFirst = false) (hlt : first + p.perPage < p.store.records.length) :
    p.window (some page.info) = .ok (page.withCounts []) := by
  cases hforward : page.forward with
  | true =>
    have hposition := h.forward hforward
    rw [h.again_forward hp hfirst hforward h.lt hlt,
      Paginator.boundaryWindow_forward hposition h.lt, h.eq_pageFrom hforward, hfirst]
  | false =>
    have hpos := h.pos hforward
    have hposition := h.backward hforward hlt
    have hstop : p.upTo (p.key.scalarOf p.store.records[first + p.perPage]) -
        page.offset - 1 = first + p.perPage := by omega
    rw [h.again_backward hp hfirst hforward hlt, Paginator.boundaryWindow_backward hstop,
      if_pos (by omega), h.eq_pageBefore hforward hfirst]

/-- The token of a page leads to an aligned page again. -/
theorem again (h : page.Aligned p first) (hp : p.Navigable records) :
    ∃ again start, p.window (some page.info) = .ok again ∧ again.Aligned p start := by
  cases hfirst : page.isFirst with
  | true =>
    have hlt := h.lt
    rw [Shows.info_first hfirst, Paginator.window_first]
    exact ⟨_, 0, rfl, aligned_firstPage hp.isSorted (by omega)⟩
  | false =>
    by_cases hlt : first + p.perPage < p.store.records.length
    · exact ⟨_, first, h.again_inside hp hfirst hlt, h.withCounts Paginator.counts_nil⟩
    · rw [h.info_last hfirst (not_lt.1 hlt), Paginator.window_last hp.many]
      exact ⟨_, _, rfl, aligned_lastPage hp.many⟩

end Aligned

end Page

end Keyset
