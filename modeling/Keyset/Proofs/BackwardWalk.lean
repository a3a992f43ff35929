import Keyset.Proofs.Navigation

/-!
# Walking backwards

From the last page on, previous tokens lead through the table page by page, each right before the one
that gave it, until fewer records than a page and one more are left. What is left is not empty and
fits the first page.
-/
namespace Keyset

variable {R : Type} [Record R]

namespace Paginator

/-- From what was fetched on, previous tokens lead to some pages one after another, and then to the
start. -/
inductive Retreats (p : Paginator (Table R)) :
    Except (PageError Incomparable) (Page (Table R) R) → List (Page (Table R) R) → Prop where
  | stop : p.Retreats (.error .startOfSequence) []
  | page {previous : Token} {page : Page (Table R) R} {pages : List (Page (Table R) R)}
    (hprevious : page.previousToken.result = .ok (some previous))
    (rest : p.Retreats (p.page (some previous)).result pages) :
    p.Retreats (.ok page) (page :: pages)

variable {p : Paginator (Table R)} {pages others : List (Page (Table R) R)}
  {fetched : Except (PageError Incomparable) (Page (Table R) R)}

theorem Retreats.unique (h : p.Retreats fetched pages) (hother : p.Retreats fetched others) :
    others = pages := by
  induction h generalizing others with
  | stop =>
    cases hother
    rfl
  | page hprevious _ ih =>
    cases hother with
    | page hbefore rest =>
      rw [hprevious, Except.ok.injEq, Option.some.injEq] at hbefore
      subst hbefore
      rw [ih rest]

end Paginator

/-- Pages that cut a list from its end into pieces of one size, down to a gap at its start that is
not empty and no larger. -/
structure CutsBack (pages : List (Page (Table R) R)) (perPage gap : Nat) (records : List R) :
    Prop where
  full : ∀ page ∈ pages, page.records.length = perPage
  flatMap_eq : pages.reverse.flatMap (fun page => page.records) = records.drop gap
  length_eq : records.length = pages.length * perPage + gap
  gap_pos : 0 < gap
  gap_le : gap ≤ perPage

namespace CutsBack

variable {page : Page (Table R) R} {pages : List (Page (Table R) R)} {perPage gap first : Nat}
  {records : List R}

omit [Record R] in
theorem singleton (hrecords : page.records = records.drop first)
    (hlength : records.length = first + perPage) (hpos : 0 < first) (hle : first ≤ perPage) :
    CutsBack [page] perPage first records where
  full := by
    intro other hother
    rw [List.mem_singleton.1 hother, hrecords, List.length_drop]
    omega
  flatMap_eq := by simp [hrecords]
  length_eq := by
    rw [List.length_singleton]
    omega
  gap_pos := hpos
  gap_le := hle

omit [Record R] in
theorem cons (hrecords : page.records = records.drop first)
    (hlength : records.length = first + perPage)
    (h : CutsBack pages perPage gap (records.take first)) :
    CutsBack (page :: pages) perPage gap records where
  full := by
    intro other hother
    rcases List.mem_cons.1 hother with rfl | hmem
    · rw [hrecords, List.length_drop]
      omega
    · exact h.full other hmem
  flatMap_eq := by
    have hcount := h.length_eq
    have hgap : gap ≤ (records.take first).length := by omega
    rw [List.reverse_cons, List.flatMap_append, h.flatMap_eq, List.flatMap_singleton, hrecords,
      ← List.drop_append_of_le_length hgap, List.take_append_drop]
  length_eq := by
    have hcount := h.length_eq
    rw [List.length_take] at hcount
    rw [List.length_cons, Nat.succ_mul]
    omega
  gap_pos := h.gap_pos
  gap_le := h.gap_le

omit [Record R] in
/-- With one more step that finds the start, the pages are as many as it takes for all records. -/
theorem length_add_one_eq (h : CutsBack pages perPage gap records) :
    pages.length + 1 = (records.length + perPage - 1) / perPage := by
  have hpos := h.gap_pos
  have hle := h.gap_le
  symm
  rw [Nat.div_eq_iff (by omega), h.length_eq, Nat.succ_mul]
  omega

end CutsBack

namespace Page.Aligned

variable {p : Paginator (Table R)} {records : List R} {page : Page (Table R) R} {first : Nat}
  {token : Token}

theorem isFirst_eq_false (h : page.Aligned p first) (hforward : page.forward = false) :
    page.isFirst = false := by
  rw [Bool.eq_false_iff]
  intro hfirst
  rw [(h.isFirst hfirst).1] at hforward
  cases hforward

theorem exists_retreats (h : page.Aligned p first) (hp : p.Navigable records)
    (hforward : page.forward = false) (hend : first + p.perPage ≤ p.store.records.length) :
    ∃ pages gap, p.Retreats (.ok page) (page :: pages) ∧
      CutsBack (page :: pages) p.perPage gap (p.store.records.take (first + p.perPage)) := by
  -- The induction is on the position of the page; each previous page lies before it.
  induction first using Nat.strong_induction_on generalizing page with
  | _ first ih =>
    have hper := p.one_lt_perPage
    have hpos := h.pos hforward
    have hrecords : page.records = (p.store.records.take (first + p.perPage)).drop first := by
      rw [h.records, List.drop_take, Nat.add_sub_cancel_left]
    have hlength : (p.store.records.take (first + p.perPage)).length = first + p.perPage := by
      rw [List.length_take, Nat.min_eq_left hend]
    obtain ⟨previous, offset, hprevious, hwindow, haligned⟩ :=
      h.previous hp (h.isFirst_eq_false hforward)
    rw [← Paginator.page_result_eq hp.toServes] at hwindow
    by_cases hfar : p.perPage < first
    · rw [if_pos hfar] at hwindow
      obtain ⟨pages, gap, hretreats, hcuts⟩ :=
        ih (first - p.perPage) (by omega) (haligned hfar) rfl (by omega)
      rw [Nat.sub_add_cancel hfar.le] at hcuts
      have htake : (p.store.records.take (first + p.perPage)).take first =
          p.store.records.take first := by
        rw [List.take_take, Nat.min_eq_left (Nat.le_add_right _ _)]
      rw [← htake] at hcuts
      exact ⟨_, gap, .page hprevious (hwindow ▸ hretreats), hcuts.cons hrecords hlength⟩
    · rw [if_neg hfar] at hwindow
      exact ⟨[], first, .page hprevious (hwindow ▸ .stop),
        CutsBack.singleton hrecords hlength hpos (not_lt.1 hfar)⟩

end Page.Aligned

theorem Paginator.exists_retreats_last {p : Paginator (Table R)} {records : List R}
    (hp : p.Navigable records) :
    ∃ pages gap, p.Retreats p.last.result pages ∧
      CutsBack pages p.perPage gap p.store.records := by
  have hmany := hp.many
  have hpage : p.last.result = .ok (p.pageBefore p.store.records.length 0) := by
    rw [last_eq, page_result_eq hp.toServes, window_last hmany]
  obtain ⟨pages, gap, hretreats, hcuts⟩ :=
    (Page.aligned_lastPage hmany).exists_retreats hp rfl (by omega)
  rw [Nat.sub_add_cancel hmany.le, List.take_length] at hcuts
  exact ⟨_, gap, hpage ▸ hretreats, hcuts⟩

/-- In every listing of more records than one page holds, previous tokens lead from the last page to
full pages, one less than it takes for all records, and then to the start. The pages show each record
once, in order, down to a gap that the first page covers. -/
theorem backward_walk {key : SortKey} {records : List R} {perPage : Nat}
    (hsuits : key.Suits records) (hback : key.DecodesBack records)
    (hlength : records.length ≤ maxLength) (hper : 1 < perPage) (hmany : perPage < records.length) :
    ∃ table p, Table.orderedBy key records = .ok table ∧
      Paginator.make table key perPage records.length = .ok p ∧
      ∃ (pages : List (Page (Table R) R)) (gap : Nat),
        (∀ others, p.Retreats p.last.result others ↔ others = pages) ∧
        CutsBack pages perPage gap table.records ∧
        pages.length + 1 = (records.length + perPage - 1) / perPage ∧
        ∃ first : Page (Table R) R, (p.page none).result = .ok first ∧
          first.records.take gap = table.records.take gap := by
  obtain ⟨table, p, htable, hmake, hserves, rfl, rfl, rfl⟩ :=
    Paginator.exists_serves hsuits hlength hper
  have hp := hserves.navigable hback hmany
  obtain ⟨pages, gap, hretreats, hcuts⟩ := Paginator.exists_retreats_last hp
  refine ⟨p.store, p, htable, hmake, pages, gap, ?_, hcuts, ?_, p.pageFrom 0 0 true, ?_, ?_⟩
  · intro others
    constructor
    · exact hretreats.unique
    · rintro rfl
      exact hretreats
  · rw [← hserves.length_eq]
    exact hcuts.length_add_one_eq
  · exact Paginator.page_result_eq hserves none
  · have hfirst : (p.pageFrom 0 0 true).records = p.store.records.take p.perPage := rfl
    rw [hfirst, List.take_take, Nat.min_eq_left hcuts.gap_le]

theorem backward_walk_ranked :
    ∃ table p, Table.orderedBy (rankKey true) (ranked [.int 2, .null, .int 2, .int 1]) = .ok table ∧
      Paginator.make table (rankKey true) 2 4 = .ok p ∧
      ∃ (pages : List (Page (Table Row) Row)) (gap : Nat),
        (∀ others, p.Retreats p.last.result others ↔ others = pages) ∧
        CutsBack pages 2 gap table.records ∧
        pages.length + 1 = 2 ∧
        ∃ first : Page (Table Row) Row, (p.page none).result = .ok first ∧
          first.records.take gap = table.records.take gap :=
  backward_walk ⟨by decide, by decide⟩ (by decide) (by decide) (by decide) (by decide)

end Keyset
