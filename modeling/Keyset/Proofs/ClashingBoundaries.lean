import Keyset.Proofs.IncomparableRecords
import Keyset.Proofs.WordPages

/-!
# Boundaries that clash with records

In a table of any records, in any order, a boundary may have no order with some of them. Its view is
then refused because of the first of these, whatever the direction of the view and wherever the page
would be. Nothing else that is asked of a table is ever refused.
-/
namespace Keyset

variable {R : Type} [Record R] {key : SortKey} {v : Scalar} {records : List R} {e : Incomparable}

/-- A record whose scalar is not null and has no order with another one. -/
def SortKey.Clashes (key : SortKey) (r : R) (v : Scalar) : Prop :=
  key.scalarOf r ≠ .null ∧ (key.scalarOf r).compare? v = none

/-- The failure to compare a scalar with the first record that clashes with it. -/
def FirstClash (key : SortKey) (v : Scalar) (records : List R) (e : Incomparable) : Prop :=
  ∃ front r back, records = front ++ r :: back ∧ (∀ s ∈ front, ¬ key.Clashes s v) ∧
    key.Clashes r v ∧ e = ⟨key.path, key.scalarOf r, v⟩

theorem exists_firstClash_iff : (∃ e, FirstClash key v records e) ↔ ∃ r ∈ records, key.Clashes r v := by
  constructor
  · rintro ⟨e, front, r, back, rfl, _, hclash, _⟩
    exact ⟨r, by simp, hclash⟩
  · intro h
    induction records with
    | nil => simp at h
    | cons first rest ih =>
      by_cases hfirst : key.Clashes first v
      · exact ⟨_, [], first, rest, rfl, by simp, hfirst, rfl⟩
      · obtain ⟨r, hr, hclash⟩ := h
        rcases List.mem_cons.1 hr with rfl | hr
        · exact absurd hclash hfirst
        · obtain ⟨e, front, s, back, rfl, hfront, hs, he⟩ := ih ⟨r, hr, hclash⟩
          exact ⟨e, first :: front, s, back, rfl, List.forall_mem_cons.2 ⟨hfirst, hfront⟩, hs, he⟩

/-! ## Selecting -/

theorem keepM_eq_error_iff {α ε : Type} {test : α → Except ε Bool} {xs : List α} {e : ε} :
    keepM test xs = .error e ↔ ∃ front x back, xs = front ++ x :: back ∧
      (∀ y ∈ front, ∃ kept, test y = .ok kept) ∧ test x = .error e := by
  constructor
  · intro h
    induction xs with
    | nil => cases h
    | cons x xs ih =>
      rw [keepM] at h
      cases hx : test x with
      | error e' =>
        simp only [hx, bind, Except.bind] at h
        exact ⟨[], x, xs, rfl, by simp, hx.trans (congrArg _ (Except.error.inj h))⟩
      | ok kept =>
        cases hxs : keepM test xs with
        | ok rest => simp [hx, hxs, bind, Except.bind, pure, Except.pure] at h
        | error e' =>
          simp only [hx, hxs, bind, Except.bind] at h
          obtain ⟨front, y, back, rfl, hfront, hy⟩ := ih (hxs.trans h)
          exact ⟨x :: front, y, back, rfl, List.forall_mem_cons.2 ⟨⟨kept, hx⟩, hfront⟩, hy⟩
  · rintro ⟨front, x, back, rfl, hfront, hx⟩
    induction front with
    | nil => simp only [List.nil_append, keepM, hx, bind, Except.bind]
    | cons y front ih =>
      obtain ⟨⟨kept, hy⟩, hfront⟩ := List.forall_mem_cons.1 hfront
      simp only [List.cons_append, keepM, hy, ih hfront, bind, Except.bind]

theorem map_compareAt_eq_error_iff {β : Type} {path : Path} {a : Scalar} {f : Ordering → β} :
    (compareAt path a v).map f = .error e ↔ a.compare? v = none ∧ e = ⟨path, a, v⟩ := by
  rw [compareAt]
  cases a.compare? v <;> simp [Except.map, eq_comm]

theorem Filter.accepts_eq_error_iff {filter : Filter} {path : Path} {a : Scalar} :
    filter.accepts path a = .error e ↔
      ∃ v ∈ filter.bound?, a ≠ .null ∧ a.compare? v = none ∧ e = ⟨path, a, v⟩ := by
  by_cases ha : a = .null
  · subst ha
    cases filter <;> simp [accepts, Scalar.isNull]
  · have hnot : a.isNull = false := by
      rwa [Bool.eq_false_iff, Ne, Scalar.isNull_iff]
    cases filter <;> simp [accepts, bound?, hnot, ha, map_compareAt_eq_error_iff]

/-- A table refuses a filter because of the first record that clashes with what the filter compares
records with. -/
theorem Table.select_eq_error_iff {filter : Filter} {table : Table R} :
    Store.select table key.path filter = .error e ↔
      ∃ v ∈ filter.bound?, FirstClash key v table.records e := by
  have hselect : Store.select table key.path filter = .error e ↔
      keepM (fun r => filter.accepts key.path (key.scalarOf r)) table.records = .error e := by
    simp only [Store.select]
    change (keepM (fun r => filter.accepts key.path (key.scalarOf r)) table.records >>= _) = _ ↔ _
    cases keepM (fun r => filter.accepts key.path (key.scalarOf r)) table.records <;>
      simp [bind, Except.bind, pure, Except.pure]
  have haccepts (r : R) : (∃ kept, filter.accepts key.path (key.scalarOf r) = .ok kept) ↔
      ∀ v ∈ filter.bound?, ¬ key.Clashes r v := by
    cases hr : filter.accepts key.path (key.scalarOf r) with
    | ok kept =>
      refine iff_of_true ⟨kept, rfl⟩ ?_
      intro v hv hclash
      rw [Filter.accepts_eq_error_iff.2 ⟨v, hv, hclash.1, hclash.2, rfl⟩] at hr
      cases hr
    | error e' =>
      obtain ⟨v, hv, hnull, hnone, _⟩ := Filter.accepts_eq_error_iff.1 hr
      exact iff_of_false nofun fun h => h v hv ⟨hnull, hnone⟩
  simp only [hselect, keepM_eq_error_iff, haccepts, Filter.accepts_eq_error_iff]
  cases filter.bound? with
  | none => simp
  | some v => simp [FirstClash, SortKey.Clashes, and_assoc]

/-! ## Finding pages -/

namespace Paginator

variable {p : Paginator (Table R)} {token : Token} {downwards : Bool}

/-- The view of a boundary compares with it, unless the boundary is null. -/
theorem view_eq_store_error_iff : p.view v downwards = .error (.store e) ↔
    v ≠ .null ∧ FirstClash p.key v p.store.records e := by
  have hmap {filter : Filter} {e : Incomparable} :
      (Store.select p.store p.key.path filter).mapError PageError.store = .error (.store e) ↔
        Store.select p.store p.key.path filter = .error e := by
    cases Store.select p.store p.key.path filter <;> simp [Except.mapError]
  by_cases hv : v = .null
  · subst hv
    cases downwards <;>
      simp [view, viewFilter, Scalar.isNull, hmap, Table.select_eq_error_iff, Filter.bound?]
  · have hnot : v.isNull = false := by
      rwa [Bool.eq_false_iff, Ne, Scalar.isNull_iff]
    cases downwards <;>
      simp [view, viewFilter, hnot, hv, hmap, Table.select_eq_error_iff, Filter.bound?]

omit [Record R] in
theorem boundary_ne_store_error : p.boundary token ≠ .error (.store e) := by
  rw [boundary]
  split
  · simp
  · next value _ => cases p.key.kind.decode value <;> simp [Except.mapError]

theorem cut_eq_store_error_iff {cut : Table R → Except (PageError Incomparable) (Page (Table R) R)}
    (hcut : ∀ view, cut view ≠ .error (.store e)) :
    (p.boundary token >>= fun v => p.view v downwards >>= cut) = .error (.store e) ↔
      ∃ v, p.boundary (E := Incomparable) token = .ok v ∧ v ≠ .null ∧
        FirstClash p.key v p.store.records e := by
  cases hboundary : p.boundary (E := Incomparable) token with
  | error e' =>
    have hne : p.boundary token ≠ .error (.store e) := p.boundary_ne_store_error
    rw [hboundary] at hne
    simpa [bind, Except.bind] using hne
  | ok v =>
    have hviewed : p.view v downwards = .error (.store e) ↔
        v ≠ .null ∧ FirstClash p.key v p.store.records e := view_eq_store_error_iff
    simp only [Except.ok.injEq, exists_eq_left', ← hviewed]
    cases hview : p.view (E := Incomparable) v downwards with
    | error e' => simp [hview, bind, Except.bind]
    | ok view => simp [hview, hcut, bind, Except.bind]

theorem forwardPage_eq_store_error_iff : p.forwardPage token = .error (.store e) ↔
    ∃ v, p.boundary (E := Incomparable) token = .ok v ∧ v ≠ .null ∧
      FirstClash p.key v p.store.records e := by
  apply cut_eq_store_error_iff
  intro view
  simp only [Store.slice, Except.mapError, bind, Except.bind]
  split <;> simp [pure, Except.pure]

theorem backwardPage_eq_store_error_iff : p.backwardPage token = .error (.store e) ↔
    ∃ v, p.boundary (E := Incomparable) token = .ok v ∧ v ≠ .null ∧
      FirstClash p.key v p.store.records e := by
  apply cut_eq_store_error_iff
  intro view
  simp only [Store.slice, Except.mapError, bind, Except.bind]
  split <;> simp [pure, Except.pure]

theorem firstPage_ne_store_error : p.firstPage.result ≠ .error (.store e) := by
  simp [firstPage, Store.slice]

theorem lastPage_ne_store_error : p.lastPage ≠ .error (.store e) := by
  simp [lastPage, Store.slice, Except.mapError, bind, Except.bind, pure, Except.pure]

/-- A token names a boundary of a listing by a key. -/
structure NamesBoundary (key : SortKey) (token : Token) (v : Scalar) : Prop where
  kind_eq : token.kind = .forward ∨ token.kind = .backward
  key_eq : token.key = some key.key
  value_eq : ∃ value, token.value = some value ∧ key.kind.decode value = .ok v

theorem NamesBoundary.unique {v w : Scalar} (hv : NamesBoundary key token v)
    (hw : NamesBoundary key token w) : v = w := by
  obtain ⟨value, hvalue, hdecode⟩ := hv.value_eq
  obtain ⟨value', hvalue', hdecode'⟩ := hw.value_eq
  obtain rfl := Option.some.inj (hvalue.symm.trans hvalue')
  exact Except.ok.inj (hdecode.symm.trans hdecode')

omit [Record R] in
theorem boundary_eq_ok_iff : p.boundary (E := Incomparable) token = .ok v ↔
    ∃ value, token.value = some value ∧ p.key.kind.decode value = .ok v := by
  rw [boundary]
  cases token.value with
  | none => simp
  | some value => cases hdecode : p.key.kind.decode value <;> simp [hdecode, Except.mapError]

theorem fetch_eq_store_error_iff : p.fetch token = .error (.store e) ↔
    ∃ v, NamesBoundary p.key token v ∧ v ≠ .null ∧ FirstClash p.key v p.store.records e := by
  by_cases hkey : token.key = some p.key.key
  · have hnames (v : Scalar) : NamesBoundary p.key token v ↔
        (token.kind = .forward ∨ token.kind = .backward) ∧
          p.boundary (E := Incomparable) token = .ok v := by
      rw [boundary_eq_ok_iff]
      exact ⟨fun h => ⟨h.kind_eq, h.value_eq⟩, fun h => ⟨h.1, hkey, h.2⟩⟩
    simp only [fetch, checkKey, hkey, if_true, bind, Except.bind, hnames]
    cases token.kind with
    | forward => simp [forwardPage_eq_store_error_iff]
    | backward => simp [backwardPage_eq_store_error_iff]
    | first => simp [lastPage_ne_store_error]
    | last => simp [lastPage_ne_store_error]
  · have hother : ¬ ∃ v, NamesBoundary p.key token v ∧ v ≠ .null ∧
        FirstClash p.key v p.store.records e := by
      rintro ⟨v, hnames, _⟩
      exact hkey hnames.key_eq
    refine iff_of_false ?_ hother
    rw [fetch, checkKey]
    cases hnamed : token.key with
    | none => simp [bind, Except.bind]
    | some named =>
      rw [hnamed, Option.some.injEq] at hkey
      simp [hkey, bind, Except.bind]

/-- A table fails to find a page only because of a record that clashes with the boundary that the
token names. -/
theorem page_eq_store_error_iff {token : Option Token} :
    (p.page token).result = .error (.store e) ↔ ∃ t v, token = some t ∧ NamesBoundary p.key t v ∧
      p.perPage < p.count ∧ v ≠ .null ∧ FirstClash p.key v p.store.records e := by
  cases token with
  | none => simp [page, firstPage_ne_store_error]
  | some token =>
    rw [page]
    by_cases hmany : token.kind ≠ .first ∧ p.perPage < p.count
    · have hfetch : (p.boundaryPage token).result = .error (.store e) ↔
          p.fetch token = .error (.store e) := by
        rw [boundaryPage_eq]
        cases p.fetch (R := R) (E := Incomparable) token <;> simp
      rw [if_pos hmany, hfetch, fetch_eq_store_error_iff]
      simp [hmany.2]
    · rw [if_neg hmany]
      refine iff_of_false firstPage_ne_store_error ?_
      rintro ⟨_, _, ⟨⟩, hnames, hcount, _⟩
      apply hmany
      refine ⟨?_, hcount⟩
      rcases hnames.kind_eq with hkind | hkind <;> simp [hkind]

end Paginator

/-- Over a table of any records, in any order, the page of a boundary is refused by the table exactly
if the boundary is not null and clashes with a record, because of the first such record, and then not
for another reason. The first page and the last page are never refused by it. -/
theorem page_clashes (key : SortKey) (records : List R) {perPage : Nat} (hper : 1 < perPage)
    (count : Nat) :
    ∃ p, Paginator.make (⟨records⟩ : Table R) key perPage count = .ok p ∧
      (∀ token v, Paginator.NamesBoundary key token v → perPage < count →
        ((∃ e, (p.page (some token)).result = .error (.store e)) ↔
          v ≠ .null ∧ ∃ r ∈ records, key.Clashes r v) ∧
        (∀ e, (p.page (some token)).result = .error (.store e) ↔
          v ≠ .null ∧ FirstClash key v records e) ∧
        (v ≠ .null → (∃ r ∈ records, key.Clashes r v) →
          (p.page (some token)).result ≠ .error .endOfSequence ∧
            (p.page (some token)).result ≠ .error .startOfSequence)) ∧
      ∀ token : Option Token, (∀ t ∈ token, t.kind = .first ∨ t.kind = .last) →
        ∀ e, (p.page token).result ≠ .error (.store e) := by
  obtain ⟨p, hmake, hstore, hkey, hperPage, hp⟩ : ∃ p,
      Paginator.make (⟨records⟩ : Table R) key perPage count = .ok p ∧ p.store = ⟨records⟩ ∧
        p.key = key ∧ p.perPage = perPage ∧ p.count = count := ⟨_, dif_pos hper, rfl, rfl, rfl, rfl⟩
  refine ⟨p, hmake, ?_, ?_⟩
  · intro token v hnames hcount
    have hiff (e : Incomparable) : (p.page (some token)).result = .error (.store e) ↔
        v ≠ .null ∧ FirstClash key v records e := by
      subst hkey hperPage hp
      rw [Paginator.page_eq_store_error_iff, hstore]
      constructor
      · rintro ⟨_, w, ⟨⟩, hnames', _, hnull, hclash⟩
        obtain rfl := hnames.unique hnames'
        exact ⟨hnull, hclash⟩
      · rintro ⟨hnull, hclash⟩
        exact ⟨token, v, rfl, hnames, hcount, hnull, hclash⟩
    refine ⟨?_, hiff, ?_⟩
    · rw [exists_congr hiff, exists_and_left, exists_firstClash_iff]
    · intro hnull hclash
      obtain ⟨e, he⟩ := exists_firstClash_iff.2 hclash
      rw [(hiff e).2 ⟨hnull, he⟩]
      simp
  · intro token hkinds e h
    obtain ⟨t, v, rfl, hnames, _⟩ := Paginator.page_eq_store_error_iff.1 h
    rcases hkinds t rfl with hkind | hkind <;> simpa [hkind] using hnames.kind_eq

/-- Numbers and texts, unsorted, and a boundary that the second and the fourth record clash with. It
is refused because of the second, in both directions and at any offset. -/
theorem page_clashes_ranked : ∃ p,
    Paginator.make (⟨ranked [.int 3, .text "b", .null, .bool true, .int 1]⟩ : Table Row)
      (rankKey true) 2 5 = .ok p ∧
    (∀ offset, (p.page (some (.forward "rank" (.integer 2) offset))).result =
        .error (.store ⟨(rankKey true).path, .text "b", .int 2⟩) ∧
      (p.page (some (.backward "rank" (.integer 2) offset))).result =
        .error (.store ⟨(rankKey true).path, .text "b", .int 2⟩)) ∧
    ∀ e, (p.page (some (.last "rank"))).result ≠ .error (.store e) := by
  obtain ⟨p, hmake, hclashes, hends⟩ := page_clashes (rankKey true)
    (ranked [.int 3, .text "b", .null, .bool true, .int 1]) (show 1 < 2 by decide) 5
  have hfirst : FirstClash (rankKey true) (.int 2)
      (ranked [.int 3, .text "b", .null, .bool true, .int 1])
      ⟨(rankKey true).path, .text "b", .int 2⟩ := by
    refine ⟨[⟨1, [("rank", .int 3)]⟩], ⟨2, [("rank", .text "b")]⟩, _, rfl, ?_, ?_, rfl⟩
    · simp only [List.mem_singleton, forall_eq]
      exact fun h => absurd h.2 (by decide)
    · constructor <;> decide
  refine ⟨p, hmake, ?_, hends _ (by simp [Token.last])⟩
  intro offset
  constructor
  · refine ((hclashes _ (.int 2) ⟨.inl rfl, rfl, _, rfl, ?_⟩ (by decide)).2.1 _).2 ⟨nofun, hfirst⟩
    rfl
  · refine ((hclashes _ (.int 2) ⟨.inr rfl, rfl, _, rfl, ?_⟩ (by decide)).2.1 _).2 ⟨nofun, hfirst⟩
    rfl

end Keyset
