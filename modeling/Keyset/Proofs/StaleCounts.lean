import Keyset.Proofs.CompleteWalk

/-!
# Stale counts

A paginator believes the count that it is given, but its pages look ahead in the table itself. When
the count says that all records fit the first page and the page sees one more, it gives a token for
the rest, and the token leads to the first page again. A walk then never ends. With every other
count it ends, and it is complete.
-/
namespace Keyset

variable {R : Type} [Record R]

namespace Walk

/-- A walk that is underway, and stays so with each step, gives one item again and again. -/
theorem follow_replicate {item : Except (PageError Incomparable) (Page (Table R) R)}
    (underway : Walk (Table R) Incomparable → Prop)
    (hstep : ∀ walk, underway walk →
      ∃ after, walk.next.result = (some item, after) ∧ underway after)
    {walk : Walk (Table R) Incomparable} (h : underway walk) (k : Nat) :
    (walk.follow k).result.items = List.replicate k item ∧
      (walk.follow (R := R) k).result.ended = false := by
  induction k generalizing walk with
  | zero => exact ⟨rfl, rfl⟩
  | succ k ih =>
    obtain ⟨after, hnext, hafter⟩ := hstep walk h
    obtain ⟨hitems, hended⟩ := ih hafter
    simp only [follow, hnext, hitems, hended, List.replicate_succ, and_self]

end Walk

namespace Paginator

variable {p : Paginator (Table R)} {records : List R}

theorem page_eq_firstPage (hcount : p.count ≤ p.perPage) (token : Option Token) :
    p.page (R := R) token = p.firstPage := by
  cases token with
  | none => rfl
  | some token => rw [page, if_neg fun h => not_lt.2 hcount h.2]

/-- If the count fits one page and the records do not, a walk gives the first page for ever. -/
theorem Holds.follow_walk (hp : p.Holds records) (hcount : p.count ≤ p.perPage)
    (hmany : p.perPage < p.store.records.length) :
    ∃ page : Page (Table R) R, page.records = p.store.records.take p.perPage ∧
      ∀ k, (p.walk.follow k).result.items = List.replicate k (.ok page) ∧
        (p.walk.follow (R := R) k).result.ended = false := by
  have hroom : p.ceiling.Exceeds p.store.records.length := hp.exceeds.mono (by omega)
  have hpage : ∀ token, (p.page token).result = .ok (p.pageFrom 0 0 true) := by
    intro token
    rw [page_eq_firstPage hcount, firstPage_eq hroom]
  have hshows : (p.pageFrom 0 0 true).Shows p 0 := Page.shows_pageFrom (Nat.zero_le _) true
  obtain ⟨hresult, duplicates, _, hasked⟩ := hshows.nextToken hp.isSorted hp.exceeds (by omega)
  obtain ⟨next, htoken⟩ : ∃ next, (p.pageFrom 0 0 true).nextToken.result = .ok (some next) :=
    ⟨_, hresult⟩
  refine ⟨(p.pageFrom 0 0 true).withCounts duplicates, rfl, fun k => ?_⟩
  apply Walk.follow_replicate fun walk =>
    walk.paginator = p ∧ ∃ token, walk.next (R := R) = walk.visit token
  · rintro ⟨_, position⟩ ⟨rfl, token, hvisits⟩
    refine ⟨⟨_, .at next⟩, ?_, rfl, some next, rfl⟩
    rw [hvisits, Walk.visit_page (hpage token), htoken, hasked, Walk.positionAfter]
  · exact ⟨rfl, none, rfl⟩

end Paginator

/-- In every listing with any count, the walk from the first page on ends and gives no record twice,
unless the count fits one page and the records do not. Then it gives the first page for ever. -/
theorem walk_ends_or_repeats {key : SortKey} {records : List R} {perPage : Nat}
    (hsuits : key.Suits records) (hback : key.DecodesBack records)
    (hlength : records.length ≤ maxLength) (hids : (records.map Record.id).Nodup)
    (hper : 1 < perPage) (count : Nat) :
    ∃ table p, Table.orderedBy key records = .ok table ∧
      Paginator.make table key perPage count = .ok p ∧
      (perPage < count ∨ records.length ≤ perPage → ∃ pages : List (Page (Table R) R),
        (∀ k, (p.walk.follow k).result.items = (pages.take k).map .ok ∧
          (p.walk.follow (R := R) k).result.ended = decide (pages.length < k)) ∧
        ((pages.flatMap fun page => page.records).map Record.id).Nodup ∧
        Cuts pages perPage table.records) ∧
      (count ≤ perPage ∧ perPage < records.length → ∃ page : Page (Table R) R,
        page.records = table.records.take perPage ∧
        ∀ k, (p.walk.follow k).result.items = List.replicate k (.ok page) ∧
          (p.walk.follow (R := R) k).result.ended = false) := by
  obtain ⟨table, p, htable, hmake, hp, rfl, rfl, rfl, rfl⟩ :=
    Paginator.exists_holds hsuits hlength hper count
  have hlengthEq := hp.length_eq
  refine ⟨p.store, p, htable, hmake, ?_, ?_⟩
  · intro hcount
    obtain ⟨pages, hyields, hcuts⟩ := hp.exists_yields_walk (hback.perm hp.perm.symm) hcount
    have hnodup : (p.store.records.map Record.id).Nodup :=
      (hp.perm.map Record.id).nodup_iff.2 hids
    refine ⟨pages, hyields.follow_eq, ?_, hcuts⟩
    rw [hcuts.flatMap_eq]
    exact hnodup
  · rintro ⟨hcount, hmany⟩
    exact hp.follow_walk hcount (by omega)

theorem walk_ends_ranked :
    ∃ table p, Table.orderedBy (rankKey true) (ranked [.int 2, .null, .int 2, .int 1]) = .ok table ∧
      Paginator.make table (rankKey true) 2 9 = .ok p ∧
      ∃ pages : List (Page (Table Row) Row),
        (∀ k, (p.walk.follow k).result.items = (pages.take k).map .ok ∧
          (p.walk.follow (R := Row) k).result.ended = decide (pages.length < k)) ∧
        ((pages.flatMap fun page => page.records).map Record.id).Nodup ∧
        Cuts pages 2 table.records := by
  have hsuits : (rankKey true).Suits (ranked [.int 2, .null, .int 2, .int 1]) :=
    ⟨by decide, by decide⟩
  obtain ⟨table, p, htable, hmake, hends, _⟩ := walk_ends_or_repeats hsuits (by decide)
    (by decide) (by decide) (by decide : 1 < 2) 9
  exact ⟨table, p, htable, hmake, hends (by decide)⟩

/-- Three records that were counted as two. Each step of the walk gives the first two. -/
theorem exists_walk_never_ends :
    (rankKey false).Suits (ranked [.int 1, .int 2, .int 3]) ∧
    (rankKey false).DecodesBack (ranked [.int 1, .int 2, .int 3]) ∧
    ((ranked [.int 1, .int 2, .int 3]).map Record.id).Nodup ∧
    ∃ table p, Table.orderedBy (rankKey false) (ranked [.int 1, .int 2, .int 3]) = .ok table ∧
      Paginator.make table (rankKey false) 2 2 = .ok p ∧
      ∃ page : Page (Table Row) Row, page.records.map Row.id = [1, 2] ∧
        ∀ k, (p.walk.follow k).result.items = List.replicate k (.ok page) ∧
          (p.walk.follow (R := Row) k).result.ended = false := by
  have hsuits : (rankKey false).Suits (ranked [.int 1, .int 2, .int 3]) :=
    ⟨by decide, by decide⟩
  obtain ⟨table, p, htable, hmake, hp, rfl, _, hperPage, hcount⟩ :=
    Paginator.exists_holds hsuits (by decide) (by decide : 1 < 2) 2
  have hsorted : Table.orderedBy (rankKey false) (ranked [.int 1, .int 2, .int 3]) =
      .ok ⟨ranked [.int 1, .int 2, .int 3]⟩ := rfl
  rw [htable, Except.ok.injEq] at hsorted
  have hmany : p.perPage < p.store.records.length := by
    rw [hsorted, hperPage]
    decide
  obtain ⟨page, hrecords, hfollow⟩ := hp.follow_walk (by omega) hmany
  refine ⟨hsuits, by decide, by decide, p.store, p, htable, hmake, page, ?_, hfollow⟩
  rw [hrecords, hsorted, hperPage]
  decide

end Keyset
