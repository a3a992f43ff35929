import Keyset.Page.Walk
import Keyset.Proofs.Navigation

/-!
# Complete walks

The walk along the pages of a paginator follows next tokens. Each of them leads to the position after
the page, so that the pages cut the table into pieces of the page size.
-/
namespace Keyset

variable {R : Type} [Record R]

namespace Walk

/-- A walk that gives some pages, one after another, and then ends. -/
inductive Yields : Walk (Table R) Incomparable → List (Page (Table R) R) → Prop where
  | stop {walk after : Walk (Table R) Incomparable}
    (h : (walk.next (R := R)).result = (none, after)) : Yields walk []
  | page {walk after : Walk (Table R) Incomparable} {page : Page (Table R) R}
    {pages : List (Page (Table R) R)} (h : walk.next.result = (some (.ok page), after))
    (rest : Yields after pages) : Yields walk (page :: pages)

variable {walk : Walk (Table R) Incomparable} {pages : List (Page (Table R) R)}

theorem yields_done (h : walk.position = .done) : Yields (R := R) walk [] := by
  have hnone : (walk.next (R := R)).result = (none, walk) := by rw [next, h]
  exact .stop hnone

theorem Yields.follow_eq (h : walk.Yields pages) (k : Nat) :
    (walk.follow k).result.items = (pages.take k).map .ok ∧
      (walk.follow (R := R) k).result.ended = decide (pages.length < k) := by
  induction h generalizing k with
  | stop h =>
    cases k with
    | zero => exact ⟨rfl, rfl⟩
    | succ k =>
      simp only [follow, h]
      exact ⟨rfl, rfl⟩
  | page h _ ih =>
    cases k with
    | zero => exact ⟨rfl, rfl⟩
    | succ k =>
      obtain ⟨hitems, hended⟩ := ih k
      simp only [follow, h, hitems, hended]
      refine ⟨rfl, ?_⟩
      simp

theorem visit_page {p : Paginator (Table R)} {position : Position Incomparable}
    {token : Option Token} {page : Page (Table R) R} (h : (p.page token).result = .ok page) :
    (visit ⟨p, position⟩ token).result =
      (some (.ok page.nextToken.page), ⟨p, positionAfter page.nextToken.result⟩) := by
  rw [visit, h]

end Walk

/-- Pages that cut a list into pieces of one size, but for a shorter last one. -/
structure Cuts (pages : List (Page (Table R) R)) (perPage : Nat) (records : List R) : Prop where
  flatMap_eq : pages.flatMap (fun page => page.records) = records
  full : ∀ page ∈ pages.dropLast, page.records.length = perPage
  length_le : ∀ page ∈ pages, page.records.length ≤ perPage
  length_eq : pages.length = max 1 ((records.length + perPage - 1) / perPage)

namespace Cuts

variable {page : Page (Table R) R} {pages : List (Page (Table R) R)} {perPage : Nat}
  {records : List R}

omit [Record R] in
theorem singleton (hrecords : page.records = records) (hle : records.length ≤ perPage)
    (hper : 0 < perPage) : Cuts [page] perPage records where
  flatMap_eq := by simp [hrecords]
  full := by simp
  length_le := by simpa [hrecords] using hle
  length_eq := by
    have hlt : (records.length + perPage - 1) / perPage < 2 := by
      rw [Nat.div_lt_iff_lt_mul hper]
      omega
    rw [List.length_singleton]
    omega

omit [Record R] in
theorem cons (hrecords : page.records = records.take perPage) (hlt : perPage < records.length)
    (hper : 0 < perPage) (h : Cuts pages perPage (records.drop perPage)) :
    Cuts (page :: pages) perPage records := by
  have hlength : page.records.length = perPage := by
    rw [hrecords, List.length_take, Nat.min_eq_left hlt.le]
  have hcount := h.length_eq
  have hne : pages ≠ [] := by
    intro hnil
    rw [hnil, List.length_nil] at hcount
    omega
  constructor
  · rw [List.flatMap_cons, h.flatMap_eq, hrecords, List.take_append_drop]
  · rw [List.dropLast_cons_of_ne_nil hne]
    intro other hother
    rcases List.mem_cons.1 hother with rfl | hmem
    · exact hlength
    · exact h.full other hmem
  · intro other hother
    rcases List.mem_cons.1 hother with rfl | hmem
    · exact hlength.le
    · exact h.length_le other hmem
  · obtain ⟨rest, hrest⟩ := Nat.exists_eq_add_of_lt hlt
    have hdrop : (records.drop perPage).length = rest + 1 := by
      rw [List.length_drop]
      omega
    have hceil : (records.length + perPage - 1) / perPage =
        (rest + 1 + perPage - 1) / perPage + 1 := by
      rw [← Nat.add_div_right _ hper]
      congr 1
      omega
    have hpos : 0 < (rest + 1 + perPage - 1) / perPage := Nat.div_pos (by omega) hper
    rw [List.length_cons, hcount, hdrop, hceil]
    omega

end Cuts

namespace Walk

variable {p : Paginator (Table R)} {position : Position Incomparable} {token : Option Token}
  {page : Page (Table R) R} {first : Nat} {records : List R}

theorem exists_yields_last (h : page.Shows p first)
    (hend : p.store.records.length ≤ first + p.perPage) (hpage : (p.page token).result = .ok page)
    (hvisits : next ⟨p, position⟩ = visit (R := R) ⟨p, position⟩ token) :
    ∃ pages, Yields ⟨p, position⟩ pages ∧
      Cuts pages p.perPage (p.store.records.drop first) := by
  have hper := p.one_lt_perPage
  have hstep : (next ⟨p, position⟩).result =
      (some (.ok page.nextToken.page), ⟨p, positionAfter page.nextToken.result⟩) := by
    rw [hvisits, visit_page hpage]
  obtain ⟨hnone, duplicates, _, hasked⟩ := h.nextToken_none hend
  have hrest : (p.store.records.drop first).length ≤ p.perPage := by
    rw [List.length_drop]
    omega
  have hrecords : (page.withCounts duplicates).records = p.store.records.drop first :=
    h.records.trans (List.take_of_length_le hrest)
  rw [hnone, hasked] at hstep
  exact ⟨_, .page hstep (yields_done rfl), Cuts.singleton hrecords hrest (by omega)⟩

/-- From an aligned page on, a walk cuts the rest of the table into pages. -/
theorem exists_yields (hp : p.Navigable records) (h : page.Aligned p first)
    (hpage : (p.page token).result = .ok page)
    (hvisits : next ⟨p, position⟩ = visit (R := R) ⟨p, position⟩ token) :
    ∃ pages, Yields ⟨p, position⟩ pages ∧
      Cuts pages p.perPage (p.store.records.drop first) := by
  have hper := p.one_lt_perPage
  -- The induction is on how many records remain; each next token leaves fewer of them.
  induction hrest : p.store.records.length - first using Nat.strong_induction_on
    generalizing first page token position with
  | _ rest ih =>
    by_cases hlt : first + p.perPage < p.store.records.length
    · obtain ⟨nextToken, offset, htoken, hwindow, haligned⟩ := h.next hp hlt
      rw [← Paginator.page_result_eq hp.toServes] at hwindow
      have hat : next ⟨p, .at nextToken⟩ = visit (R := R) ⟨p, .at nextToken⟩ (some nextToken) := rfl
      obtain ⟨pages, hyields, hcuts⟩ := ih (p.store.records.length - (first + p.perPage))
        (by omega) haligned hwindow hat rfl
      obtain ⟨_, duplicates, _, hasked⟩ := h.toShows.nextToken hp.isSorted hp.exceeds hlt
      have hstep : (next ⟨p, position⟩).result =
          (some (.ok page.nextToken.page), ⟨p, positionAfter page.nextToken.result⟩) := by
        rw [hvisits, visit_page hpage]
      have hrecords : (page.withCounts duplicates).records =
          (p.store.records.drop first).take p.perPage := h.records
      have hmore : p.perPage < (p.store.records.drop first).length := by
        rw [List.length_drop]
        omega
      rw [htoken, hasked] at hstep
      refine ⟨_, .page hstep hyields, Cuts.cons hrecords hmore (by omega) ?_⟩
      rw [List.drop_drop]
      exact hcuts
    · exact exists_yields_last h.toShows (not_lt.1 hlt) hpage hvisits

end Walk

/-- The walk of a paginator gives pages that cut its table, and then ends, if more records than fit
one page are also counted as more. -/
theorem Paginator.Holds.exists_yields_walk {p : Paginator (Table R)} {records : List R}
    (hp : p.Holds records) (hback : p.key.DecodesBack p.store.records)
    (hcount : p.perPage < p.count ∨ records.length ≤ p.perPage) :
    ∃ pages, p.walk.Yields pages ∧ Cuts pages p.perPage p.store.records := by
  have hlength := hp.length_eq
  have hpage : (p.page (none : Option Token)).result = .ok (p.pageFrom 0 0 true) :=
    firstPage_eq (hp.exceeds.mono (by omega))
  by_cases hmany : p.perPage < p.store.records.length
  · have hmany_iff : p.perPage < p.count ↔ p.perPage < records.length := by omega
    have haligned := Page.aligned_firstPage hp.isSorted (by omega)
    exact Walk.exists_yields ⟨⟨hp, hmany_iff⟩, hback, hmany⟩ haligned hpage rfl
  · have hshows : (p.pageFrom 0 0 true).Shows p 0 := Page.shows_pageFrom (Nat.zero_le _) true
    exact Walk.exists_yields_last hshows (by omega) hpage rfl

theorem Paginator.exists_yields_walk {p : Paginator (Table R)} {records : List R}
    (hp : p.Serves records) (hback : p.key.DecodesBack p.store.records) :
    ∃ pages, p.walk.Yields pages ∧ Cuts pages p.perPage p.store.records := by
  have hcount : p.perPage < p.count ∨ records.length ≤ p.perPage := by
    rw [hp.many_iff]
    omega
  exact hp.toHolds.exists_yields_walk hback hcount

/-- In every listing, the walk from the first page on gives each record once, in order, on as many
pages as it takes. -/
theorem complete_walk {key : SortKey} {records : List R} {perPage : Nat}
    (hsuits : key.Suits records) (hback : key.DecodesBack records)
    (hlength : records.length ≤ maxLength) (hper : 1 < perPage) :
    ∃ table p, Table.orderedBy key records = .ok table ∧
      Paginator.make table key perPage records.length = .ok p ∧
      ∃ pages : List (Page (Table R) R),
        (∀ k, (p.walk.follow k).result.items = (pages.take k).map .ok ∧
          (p.walk.follow (R := R) k).result.ended = decide (pages.length < k)) ∧
        Cuts pages perPage table.records := by
  obtain ⟨table, p, htable, hmake, hserves, rfl, rfl, rfl⟩ :=
    Paginator.exists_serves hsuits hlength hper
  obtain ⟨pages, hyields, hcuts⟩ :=
    Paginator.exists_yields_walk hserves (hback.perm hserves.perm.symm)
  exact ⟨p.store, p, htable, hmake, pages, hyields.follow_eq, hcuts⟩

theorem complete_walk_ranked :
    ∃ table p, Table.orderedBy (rankKey true) (ranked [.int 2, .null, .int 2, .int 1]) = .ok table ∧
      Paginator.make table (rankKey true) 2 4 = .ok p ∧
      ∃ pages : List (Page (Table Row) Row),
        (∀ k, (p.walk.follow k).result.items = (pages.take k).map .ok ∧
          (p.walk.follow (R := Row) k).result.ended = decide (pages.length < k)) ∧
        Cuts pages 2 table.records :=
  complete_walk ⟨by decide, by decide⟩ (by decide) (by decide) (by decide)

end Keyset
