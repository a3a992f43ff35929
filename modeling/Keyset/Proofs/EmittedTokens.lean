import Keyset.Proofs.Windows

/-!
# The tokens that a page gives

A page that shows the records from a position on knows of the two runs of equal scalars at its edges
only what it shows of them. Where such a run fills the page, the offset of the page and the count of
the run stand for what lies beyond. The offsets that result are stated here by the cuts of the
edges' scalars, for pages of any offset.
-/
namespace Keyset

namespace Paginator

variable {R : Type} [Record R]

/-- Counts that the store has given, or would give. -/
def Counts (p : Paginator (Table R)) (duplicates : List (Scalar × Nat)) : Prop :=
  ∀ entry ∈ duplicates,
    entry.1.fits p.key.kind = true ∧ entry.2 = p.upTo entry.1 - p.before entry.1

variable {p : Paginator (Table R)} {duplicates : List (Scalar × Nat)}

theorem counts_nil : p.Counts [] := by
  intro entry hentry
  cases hentry

theorem Counts.concat {v : Scalar} (h : p.Counts duplicates) (hv : v.fits p.key.kind = true) :
    p.Counts (duplicates ++ [(v, p.upTo v - p.before v)]) := by
  intro entry hentry
  rcases List.mem_append.1 hentry with hold | hnew
  · exact h entry hold
  · rw [List.mem_singleton] at hnew
    subst hnew
    exact ⟨hv, rfl⟩

end Paginator

namespace Page

variable {R : Type} [Record R]

/-- A page of a paginator that has the records from a position on. -/
structure Shows (page : Page (Table R) R) (p : Paginator (Table R)) (first : Nat) : Prop where
  paginator : page.paginator = p
  records : page.records = (p.store.records.drop first).take p.perPage
  nextItem : page.nextItem = p.store.records[first + p.perPage]?
  offset_le : page.offset ≤ p.store.records.length
  counts : p.Counts page.duplicates

def withCounts (page : Page (Table R) R) (duplicates : List (Scalar × Nat)) : Page (Table R) R :=
  { page with duplicates := duplicates }

variable {page : Page (Table R) R} {p : Paginator (Table R)} {first : Nat} {v : Scalar}

namespace Shows

theorem withCounts (h : page.Shows p first) {duplicates : List (Scalar × Nat)}
    (hcounts : p.Counts duplicates) : (page.withCounts duplicates).Shows p first :=
  ⟨h.paginator, h.records, h.nextItem, h.offset_le, hcounts⟩

theorem scalarOf_eq (h : page.Shows p first) (r : R) : page.scalarOf r = p.key.scalarOf r := by
  rw [scalarOf, h.paginator]
  rfl

theorem length_eq (h : page.Shows p first) :
    page.records.length = min p.perPage (p.store.records.length - first) := by
  rw [h.records, List.length_take, List.length_drop]

theorem getElem_eq (h : page.Shows p first) {i : Nat} (hi : i < page.records.length)
    (hlt : first + i < p.store.records.length) :
    page.records[i] = p.store.records[first + i] := by
  simp only [h.records, List.getElem_take, List.getElem_drop]

theorem records_eq_cons (h : page.Shows p first) (hlt : first < p.store.records.length) :
    page.records = p.store.records[first] :: page.records.tail := by
  have hper := p.one_lt_perPage
  have hlength := h.length_eq
  have hpos : 0 < page.records.length := by omega
  have hhead := h.getElem_eq hpos (by omega)
  rw [← List.head_eq_getElem (List.ne_nil_of_length_pos hpos)] at hhead
  simp only [Nat.add_zero] at hhead
  rw [← hhead, List.cons_head_tail]

theorem head?_records (h : page.Shows p first) :
    page.records.head? = p.store.records[first]? := by
  have hper := p.one_lt_perPage
  rw [h.records, List.head?_take, if_neg (by omega), List.head?_drop]

theorem hasNext_iff (h : page.Shows p first) :
    page.hasNext = true ↔ first + p.perPage < p.store.records.length := by
  rw [hasNext, h.nextItem, Option.isSome_iff_exists]
  constructor
  · rintro ⟨r, hr⟩
    exact (List.getElem?_eq_some_iff.1 hr).1
  · intro hlt
    exact ⟨_, List.getElem?_eq_getElem hlt⟩

end Shows

theorem shows_pageFrom {offset : Nat} (hoffset : offset ≤ p.store.records.length)
    (isFirst : Bool) : (p.pageFrom first offset isFirst).Shows p first :=
  ⟨rfl, rfl, rfl, hoffset, Paginator.counts_nil⟩

theorem shows_pageBefore {stop offset : Nat} (hstop : p.perPage ≤ stop)
    (hoffset : offset ≤ p.store.records.length) :
    (p.pageBefore stop offset).Shows p (stop - p.perPage) where
  paginator := rfl
  records := by
    have hcut : stop - (stop - p.perPage) = p.perPage := by omega
    rw [Paginator.pageBefore, List.drop_take, hcut]
  nextItem := by rw [Paginator.pageBefore, Nat.sub_add_cancel hstop]
  offset_le := hoffset
  counts := Paginator.counts_nil

theorem Shows.eq_pageFrom (h : page.Shows p first) (hforward : page.forward = true) :
    page.withCounts [] = p.pageFrom first page.offset page.isFirst := by
  rw [Page.withCounts, Paginator.pageFrom, Page.mk.injEq]
  exact ⟨h.paginator, h.records, hforward, rfl, h.nextItem, rfl, rfl⟩

theorem Shows.eq_pageBefore (h : page.Shows p first) (hforward : page.forward = false)
    (hfirst : page.isFirst = false) :
    page.withCounts [] = p.pageBefore (first + p.perPage) page.offset := by
  rw [Page.withCounts, Paginator.pageBefore, Page.mk.injEq, Nat.add_sub_cancel, List.drop_take,
    Nat.add_sub_cancel_left]
  exact ⟨h.paginator, h.records, hforward, rfl, h.nextItem, hfirst, rfl⟩

/-! ## The token of the page itself -/

namespace Shows

theorem info_first (hfirst : page.isFirst = true) : page.info = .first := by
  rw [info, if_pos hfirst]

theorem info_last (h : page.Shows p first) (hfirst : page.isFirst = false)
    (hend : p.store.records.length ≤ first + p.perPage) : page.info = .last p.key.key := by
  have hnone : page.nextItem = none := by
    rw [h.nextItem, List.getElem?_eq_none hend]
  rw [info, if_neg (by rw [hfirst]; decide), hnone, h.paginator]
  cases page.forward with
  | false => rfl
  | true => cases page.records.head? <;> rfl

theorem info_forward (h : page.Shows p first) (hfirst : page.isFirst = false)
    (hforward : page.forward = true) (hlt : first < p.store.records.length)
    (hnext : first + p.perPage < p.store.records.length) :
    page.info = .forward p.key.key (p.key.scalarOf p.store.records[first]).toJson page.offset := by
  rw [info, if_neg (by rw [hfirst]; decide), h.nextItem, List.getElem?_eq_getElem hnext,
    h.records_eq_cons hlt, hforward]
  simp only [List.head?_cons, if_true, h.scalarOf_eq, h.paginator]

theorem info_backward (h : page.Shows p first) (hfirst : page.isFirst = false)
    (hforward : page.forward = false) (hlt : first + p.perPage < p.store.records.length) :
    page.info = .backward p.key.key
      (p.key.scalarOf p.store.records[first + p.perPage]).toJson page.offset := by
  rw [info, if_neg (by rw [hfirst]; decide), h.nextItem, List.getElem?_eq_getElem hlt, hforward]
  simp only [Bool.false_eq_true, if_false, h.scalarOf_eq, h.paginator]

end Shows

/-! ## Asking for counts -/

/-- What a page answers: a result, and itself with counts of the store. -/
structure Answers {α : Type} (page : Page (Table R) R) (p : Paginator (Table R))
    (answer : Answer (Table R) R (Except (PageError Incomparable) α)) (a : α) : Prop where
  result : answer.result = .ok a
  page : ∃ duplicates, p.Counts duplicates ∧ answer.page = page.withCounts duplicates

theorem Shows.answers_self {α : Type} (h : page.Shows p first) (a : α) (events : List Event) :
    page.Answers p ⟨.ok a, page, events⟩ a :=
  ⟨rfl, page.duplicates, h.counts, rfl⟩

theorem Shows.countDuplicates_eq (h : page.Shows p first) (hp : p.IsSorted)
    (hv : v.fits p.key.kind = true) :
    ∃ duplicates remembered, p.Counts duplicates ∧
      page.countDuplicates v = ⟨.ok (p.upTo v - p.before v), page.withCounts duplicates,
        [.duplicates v (p.upTo v - p.before v) remembered]⟩ := by
  rw [Page.countDuplicates]
  cases hfind : page.duplicates.find? fun entry => entry.1.same v with
  | none =>
    have hcount : page.paginator.countDuplicates v = .ok (p.upTo v - p.before v) := by
      rw [h.paginator, hp.countDuplicates_eq hv]
    simp only [hcount]
    exact ⟨_, false, h.counts.concat hv, rfl⟩
  | some entry =>
    obtain ⟨hfit, hcount⟩ := h.counts entry (List.mem_of_find?_eq_some hfind)
    have hsame : entry.1.same v = true := by
      have hfound := List.find?_some hfind
      exact hfound
    have hn : entry.2 = p.upTo v - p.before v := by
      rw [hcount, hp.upTo_congr hfit hv hsame, hp.before_congr hfit hv hsame]
    simp only [hn]
    exact ⟨page.duplicates, true, h.counts, rfl⟩

/-- What remains of a run is never less than nothing. -/
theorem Shows.remainingDuplicates (h : page.Shows p first) (hp : p.IsSorted)
    (hroom : p.ceiling.Exceeds p.store.records.length) (hv : v.fits p.key.kind = true)
    (consumed : Nat) :
    page.Answers p (page.remainingDuplicates v consumed)
      (p.upTo v - p.before v - (consumed + 1)) := by
  obtain ⟨duplicates, remembered, hcounts, hcounted⟩ := h.countDuplicates_eq hp hv
  have hupTo := p.upTo_le (v := v)
  rw [Page.remainingDuplicates]
  simp only [hcounted, h.paginator]
  by_cases hfew : consumed + 1 ≤ p.upTo v - p.before v
  · have hadd : p.ceiling.add consumed 1 = consumed + 1 := hroom.add_eq (by omega)
    rw [hadd, if_pos hfew]
    exact ⟨rfl, duplicates, hcounts, rfl⟩
  · have hmany : p.upTo v - p.before v < p.ceiling.add consumed 1 :=
      hroom.lt_add (by omega) (by omega)
    have hzero : p.upTo v - p.before v - (consumed + 1) = 0 := by omega
    rw [if_neg (by omega), hzero]
    exact ⟨rfl, duplicates, hcounts, rfl⟩

/-- Asking for what remains of a run that is long enough only reports its count. -/
theorem Shows.remainingDuplicates_events (h : page.Shows p first) (hp : p.IsSorted)
    (hroom : p.ceiling.Exceeds p.store.records.length) (hv : v.fits p.key.kind = true)
    {consumed : Nat} (hfew : consumed + 1 ≤ p.upTo v - p.before v) :
    ∃ remembered, (page.remainingDuplicates v consumed).events =
      [.duplicates v (p.upTo v - p.before v) remembered] := by
  obtain ⟨duplicates, remembered, _, hcounted⟩ := h.countDuplicates_eq hp hv
  have hupTo := p.upTo_le (v := v)
  have hadd : p.ceiling.add consumed 1 = consumed + 1 := hroom.add_eq (by omega)
  rw [Page.remainingDuplicates]
  simp only [hcounted, h.paginator, hadd, if_pos hfew]
  exact ⟨remembered, rfl⟩

/-! ## Runs at the edges -/

theorem Shows.runLength_reverse (h : page.Shows p first) (hp : p.IsSorted)
    (hlt : first + p.perPage < p.store.records.length)
    (hv : v.fits p.key.kind = true) (hbefore : p.before v ≤ first + p.perPage)
    (hupTo : first + p.perPage ≤ p.upTo v) :
    page.runLength v page.records.reverse = first + p.perPage - max first (p.before v) := by
  have hlength : page.records.length = p.perPage := by
    rw [h.length_eq]
    omega
  rw [runLength]
  apply length_takeWhile_eq
  · rw [List.length_reverse, hlength]
    omega
  · intro i hi hlow
    rw [List.length_reverse, hlength] at hi
    rw [List.getElem_reverse, h.scalarOf_eq, h.getElem_eq _ (by omega), hp.same_getElem_iff hv]
    omega
  · intro hi
    rw [List.length_reverse, hlength] at hi
    rw [List.getElem_reverse, h.scalarOf_eq, h.getElem_eq _ (by omega), Bool.eq_false_iff, Ne,
      hp.same_getElem_iff hv]
    omega

theorem Shows.runLength_tail (h : page.Shows p first) (hp : p.IsSorted)
    (hlt : first < p.store.records.length) (hv : v.fits p.key.kind = true)
    (hbefore : p.before v ≤ first) (hupTo : first < p.upTo v) :
    page.runLength v page.records.tail = min (p.perPage - 1) (p.upTo v - (first + 1)) := by
  have hle := p.upTo_le (v := v)
  have hlength : page.records.tail.length =
      min p.perPage (p.store.records.length - first) - 1 := by
    rw [List.length_tail, h.length_eq]
  rw [runLength]
  apply length_takeWhile_eq
  · omega
  · intro i hi hlow
    rw [List.getElem_tail, h.scalarOf_eq, h.getElem_eq _ (by omega), hp.same_getElem_iff hv]
    omega
  · intro hi
    rw [List.getElem_tail, h.scalarOf_eq, h.getElem_eq _ (by omega), Bool.eq_false_iff, Ne,
      hp.same_getElem_iff hv]
    omega

/-- A run goes on after the page if the next record has its scalar. -/
theorem Shows.any_nextItem_iff (h : page.Shows p first) (hp : p.IsSorted)
    (hv : v.fits p.key.kind = true) (hbefore : p.before v ≤ first + p.perPage) :
    page.nextItem.any (fun next => (page.scalarOf next).same v) = true ↔
      first + p.perPage < p.upTo v := by
  have hle := p.upTo_le (v := v)
  rw [h.nextItem]
  by_cases hnext : first + p.perPage < p.store.records.length
  · rw [List.getElem?_eq_getElem hnext, Option.any_some, h.scalarOf_eq, hp.same_getElem_iff hv]
    omega
  · rw [List.getElem?_eq_none (by omega), Option.any_none]
    simp only [Bool.false_eq_true, false_iff]
    omega

/-! ## The tokens -/

/-- The offset of the token for the page after the page at `first`. The records of the next page's
scalar that lie before it are on the page, unless their run fills the page. -/
def nextOffset (page : Page (Table R) R) (p : Paginator (Table R)) (first : Nat) (v : Scalar) :
    Nat :=
  if p.before v ≤ first then
    if page.forward then p.perPage + page.offset else p.upTo v - p.before v - (page.offset + 1)
  else first + p.perPage - p.before v

/-- The offset of the token for the page before the page at `first`. The records of the first
record's scalar that lie after it are on the page, unless their run fills the page. -/
def previousOffset (page : Page (Table R) R) (p : Paginator (Table R)) (first : Nat) (v : Scalar) :
    Nat :=
  if page.forward then
    if first + p.perPage ≤ p.upTo v then p.upTo v - p.before v - (page.offset + 1)
    else p.upTo v - first - 1
  else if first + p.perPage < p.upTo v then p.perPage + page.offset
  else p.upTo v - first - 1

theorem Answers.tokenAt {answer : Answer (Table R) R (Except (PageError Incomparable) Nat)} {n : Nat}
    (h : page.Answers p answer n) (make : Nat → Token) :
    page.Answers p (Page.tokenAt make answer) (some (make n)) := by
  obtain ⟨hresult, hpage⟩ := h
  refine ⟨?_, hpage⟩
  rw [Page.tokenAt, hresult]
  rfl

theorem Shows.nextToken_none (h : page.Shows p first)
    (hend : p.store.records.length ≤ first + p.perPage) :
    page.Answers p page.nextToken none := by
  have hnone : page.nextItem = none := by
    rw [h.nextItem, List.getElem?_eq_none hend]
  rw [nextToken, hnone]
  exact h.answers_self none []

theorem Shows.nextToken_eq (h : page.Shows p first) (hp : p.IsSorted)
    (hroom : p.ceiling.Exceeds (2 * p.store.records.length))
    (hlt : first + p.perPage < p.store.records.length) :
    page.nextToken = Page.tokenAt
      (.forward p.key.key (p.key.scalarOf p.store.records[first + p.perPage]).toJson)
      (if p.before (p.key.scalarOf p.store.records[first + p.perPage]) ≤ first then
        if page.forward then ⟨.ok (p.perPage + page.offset), page, []⟩
        else page.remainingDuplicates (p.key.scalarOf p.store.records[first + p.perPage]) page.offset
      else ⟨.ok (first + p.perPage - p.before (p.key.scalarOf p.store.records[first + p.perPage])),
        page, []⟩) := by
  have hnext : page.nextItem = some p.store.records[first + p.perPage] := by
    rw [h.nextItem, List.getElem?_eq_getElem hlt]
  have hfit := hp.fits_getElem hlt
  have hbefore := hp.before_getElem_le hlt
  have hupTo := hp.lt_upTo_getElem hlt
  have hoffset := h.offset_le
  have hrun := h.runLength_reverse hp hlt hfit hbefore (by omega)
  have hadd := hroom.add_eq (m := p.perPage) (n := page.offset) (by omega)
  rw [Page.nextToken, hnext]
  simp only [h.scalarOf_eq, hrun, h.paginator]
  generalize p.key.scalarOf p.store.records[first + p.perPage] = w at *
  congr 1
  by_cases hfills : p.before w ≤ first
  · -- The run goes on before the page, so that the page alone does not tell its length.
    rw [Nat.max_eq_left hfills, Nat.add_sub_cancel_left, if_pos rfl, if_pos hfills, hadd]
  · have hinside : ¬ first + p.perPage - p.before w = p.perPage := by omega
    rw [Nat.max_eq_right (by omega), if_neg hinside, if_neg hfills]

theorem Shows.nextToken (h : page.Shows p first) (hp : p.IsSorted)
    (hroom : p.ceiling.Exceeds (2 * p.store.records.length))
    (hlt : first + p.perPage < p.store.records.length) :
    page.Answers p page.nextToken (some (.forward p.key.key
      (p.key.scalarOf p.store.records[first + p.perPage]).toJson
      (page.nextOffset p first (p.key.scalarOf p.store.records[first + p.perPage])))) := by
  have hfit := hp.fits_getElem hlt
  rw [h.nextToken_eq hp hroom hlt, nextOffset]
  apply Answers.tokenAt
  by_cases hfills : p.before (p.key.scalarOf p.store.records[first + p.perPage]) ≤ first
  · rw [if_pos hfills, if_pos hfills]
    cases page.forward with
    | false => exact h.remainingDuplicates hp (hroom.mono (by omega)) hfit page.offset
    | true => exact h.answers_self _ _
  · rw [if_neg hfills, if_neg hfills]
    exact h.answers_self _ _

theorem Shows.previousToken_none (h : page.Shows p first) (hfirst : page.isFirst = true) :
    page.Answers p page.previousToken none := by
  rw [previousToken, hfirst]
  exact h.answers_self none []

theorem Shows.previousToken_eq (h : page.Shows p first) (hp : p.IsSorted)
    (hroom : p.ceiling.Exceeds (2 * p.store.records.length))
    (hfirst : page.isFirst = false) (hlt : first < p.store.records.length) :
    page.previousToken = Page.tokenAt
      (.backward p.key.key (p.key.scalarOf p.store.records[first]).toJson)
      (if page.forward then
        if first + p.perPage ≤ p.upTo (p.key.scalarOf p.store.records[first]) then
          page.remainingDuplicates (p.key.scalarOf p.store.records[first]) page.offset
        else ⟨.ok (p.upTo (p.key.scalarOf p.store.records[first]) - first - 1), page, []⟩
      else if first + p.perPage < p.upTo (p.key.scalarOf p.store.records[first]) then
        ⟨.ok (p.perPage + page.offset), page, []⟩
      else ⟨.ok (p.upTo (p.key.scalarOf p.store.records[first]) - first - 1), page, []⟩) := by
  have hper := p.one_lt_perPage
  have hfit := hp.fits_getElem hlt
  have hbefore := hp.before_getElem_le hlt
  have hupTo := hp.lt_upTo_getElem hlt
  have hrun := h.runLength_tail hp hlt hfit hbefore hupTo
  have hgoesOn := h.any_nextItem_iff hp hfit (by omega)
  rw [Page.previousToken, hfirst, h.records_eq_cons hlt]
  simp only [h.scalarOf_eq, h.paginator] at hrun hgoesOn ⊢
  simp only [hrun]
  generalize p.key.scalarOf p.store.records[first] = w at *
  congr 1
  cases page.forward with
  | true =>
    by_cases hfills : first + p.perPage ≤ p.upTo w
    · rw [if_pos (by omega), if_pos rfl, if_pos rfl, if_pos hfills]
    · have hrest : min (p.perPage - 1) (p.upTo w - (first + 1)) = p.upTo w - first - 1 := by omega
      rw [if_neg (by omega), if_pos rfl, if_neg hfills, hrest]
  | false =>
    by_cases hfills : first + p.perPage < p.upTo w
    · have hoffset := h.offset_le
      have hle := p.upTo_le (v := w)
      have hfull : min (p.perPage - 1) (p.upTo w - (first + 1)) = p.perPage - 1 := by omega
      have hadd := hroom.add_eq (m := p.perPage - 1) (n := page.offset) (by omega)
      have hsucc := hroom.add_eq (m := p.perPage - 1 + page.offset) (n := 1) (by omega)
      have hsum : p.perPage - 1 + page.offset + 1 = p.perPage + page.offset := by omega
      simp only [hfull, hgoesOn.2 hfills, hadd, hsucc, hsum, if_pos hfills, if_true,
        Bool.false_eq_true, if_false]
    · have hrest : min (p.perPage - 1) (p.upTo w - (first + 1)) = p.upTo w - first - 1 := by omega
      have hstops := mt hgoesOn.1 hfills
      simp only [hrest, hstops, if_neg hfills, if_false, Bool.false_eq_true, ite_self]

theorem Shows.previousToken (h : page.Shows p first) (hp : p.IsSorted)
    (hroom : p.ceiling.Exceeds (2 * p.store.records.length))
    (hfirst : page.isFirst = false) (hlt : first < p.store.records.length) :
    page.Answers p page.previousToken (some (.backward p.key.key
      (p.key.scalarOf p.store.records[first]).toJson
      (page.previousOffset p first (p.key.scalarOf p.store.records[first])))) := by
  have hfit := hp.fits_getElem hlt
  rw [h.previousToken_eq hp hroom hfirst hlt, previousOffset]
  apply Answers.tokenAt
  cases page.forward with
  | true =>
    rw [if_pos rfl, if_pos rfl]
    split
    · exact h.remainingDuplicates hp (hroom.mono (by omega)) hfit page.offset
    · exact h.answers_self _ _
  | false =>
    simp only [Bool.false_eq_true, if_false]
    split
    · exact h.answers_self _ _
    · exact h.answers_self _ _

end Page

end Keyset
