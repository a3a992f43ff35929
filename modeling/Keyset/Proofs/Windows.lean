import Keyset.Proofs.Boundaries

/-!
# Pages by position

Every page is a window of the sorted table. A boundary with an offset names a position: forward it
counts from the first record that is not before the boundary, backward from the last one that is not
after it. What tokens lead to is stated here by these positions alone, without filters, reversed
stores and records that are fetched to look ahead.
-/
namespace Keyset

/-- The most records that a list in memory can have. -/
def maxLength : Nat := 0x7fffffffffffffff

namespace Ceiling

def Exceeds (ceiling : Ceiling) (n : Nat) : Prop := ∀ top, ceiling = some top → n < top

theorem Exceeds.mono {ceiling : Ceiling} {m n : Nat} (h : ceiling.Exceeds n) (hmn : m ≤ n) :
    ceiling.Exceeds m :=
  fun top htop => Nat.lt_of_le_of_lt hmn (h top htop)

theorem Exceeds.add_eq {ceiling : Ceiling} {k m n : Nat} (h : ceiling.Exceeds k) (hk : m + n ≤ k) :
    ceiling.add m n = m + n := by
  cases ceiling with
  | none => rfl
  | some top =>
    have htop := h top rfl
    rw [add, Nat.min_eq_left (by omega)]

theorem Exceeds.lt_add {ceiling : Ceiling} {j k m n : Nat} (h : ceiling.Exceeds k) (hjk : j ≤ k)
    (hj : j < m + n) : j < ceiling.add m n := by
  cases ceiling with
  | none => exact hj
  | some top =>
    have htop := h top rfl
    exact Nat.lt_min.2 ⟨hj, Nat.lt_of_le_of_lt hjk htop⟩

theorem add_add (ceiling : Ceiling) (k m n : Nat) :
    ceiling.add k (ceiling.add m n) = ceiling.add k (m + n) := by
  cases ceiling with
  | none => rfl
  | some top =>
    simp only [add]
    omega

/-- A sum that is cut at the ceiling reaches as far into a shorter list as the whole sum. -/
theorem Exceeds.take_add {α : Type} {ceiling : Ceiling} {xs : List α}
    (h : ceiling.Exceeds xs.length) (m n : Nat) : xs.take (ceiling.add m n) = xs.take (m + n) := by
  cases ceiling with
  | none => rfl
  | some top =>
    have htop := h top rfl
    rw [add]
    by_cases hle : m + n ≤ top
    · rw [Nat.min_eq_left hle]
    · rw [List.take_of_length_le (by omega), List.take_of_length_le (by omega)]

end Ceiling

namespace Paginator

variable {R : Type} [Record R]

def pageFrom (p : Paginator (Table R)) (start offset : Nat) (isFirst : Bool) :
    Page (Table R) R where
  paginator := p
  records := (p.store.records.drop start).take p.perPage
  forward := true
  offset := offset
  nextItem := p.store.records[start + p.perPage]?
  isFirst := isFirst

def pageBefore (p : Paginator (Table R)) (stop offset : Nat) : Page (Table R) R where
  paginator := p
  records := (p.store.records.take stop).drop (stop - p.perPage)
  forward := false
  offset := offset
  nextItem := p.store.records[stop]?
  isFirst := false

/-- The page of a boundary: forward from the record at the offset, backward before it. A backward
page needs one more record before it. -/
def boundaryWindow (p : Paginator (Table R)) (kind : PageKind) (v : Scalar) (offset : Nat) :
    Except (PageError Incomparable) (Page (Table R) R) :=
  match kind with
  | .forward =>
    if p.store.records.length ≤ p.before v + offset then .error .endOfSequence
    else .ok (p.pageFrom (p.before v + offset) offset false)
  | _ =>
    if p.upTo v < offset + p.perPage + 2 then .error .startOfSequence
    else .ok (p.pageBefore (p.upTo v - offset - 1) offset)

/-- The page of a token by positions. -/
def window (p : Paginator (Table R)) :
    Option Token → Except (PageError Incomparable) (Page (Table R) R)
  | none => .ok (p.pageFrom 0 0 true)
  | some token =>
    if token.kind = .first ∨ p.store.records.length ≤ p.perPage then .ok (p.pageFrom 0 0 true)
    else match token.key with
      | none => .error (.token .missingKey)
      | some key =>
        if key ≠ p.key.key then .error (.token (.otherKey key p.key.key))
        else match token.kind, token.value with
          | .last, _ => .ok (p.pageBefore p.store.records.length 0)
          | _, none => .error (.token .missingValue)
          | kind, some value =>
            match p.key.kind.ofJson? value with
            | none => .error (.token (.badValue p.key.kind value))
            | some v => p.boundaryWindow kind v token.offset

/-- A paginator over given records: its table has them in the order of the key, and its counters are
of 64 bits. -/
structure Holds (p : Paginator (Table R)) (records : List R) : Prop where
  suits : p.key.Suits records
  ordered : Table.orderedBy p.key records = .ok p.store
  length_le : records.length ≤ maxLength
  ceiling : p.ceiling = wordCeiling

/-- A paginator over given records whose count, exact or not, tells whether they fit one page. -/
structure Serves (p : Paginator (Table R)) (records : List R) : Prop extends p.Holds records where
  many_iff : p.perPage < p.count ↔ p.perPage < records.length

variable {p : Paginator (Table R)} {records : List R}

namespace Holds

theorem perm (hp : p.Holds records) : p.store.records.Perm records :=
  Table.orderedBy_perm hp.suits hp.ordered

theorem length_eq (hp : p.Holds records) : p.store.records.length = records.length :=
  hp.perm.length_eq

theorem isSorted (hp : p.Holds records) : p.IsSorted where
  suits := hp.suits.perm hp.perm.symm
  sorts := Table.orderedBy_sorts hp.suits hp.ordered

theorem exceeds (hp : p.Holds records) : p.ceiling.Exceeds (2 * p.store.records.length) := by
  intro top htop
  have hlength := hp.length_le
  rw [hp.ceiling, wordCeiling, Option.some.injEq] at htop
  rw [hp.length_eq, ← htop]
  simp only [maxLength] at hlength
  omega

end Holds

section

variable {key : SortKey} {perPage : Nat}

theorem exists_holds (hsuits : key.Suits records) (hlength : records.length ≤ maxLength)
    (hper : 1 < perPage) (count : Nat) :
    ∃ table p, Table.orderedBy key records = .ok table ∧ make table key perPage count = .ok p ∧
      p.Holds records ∧ p.store = table ∧ p.key = key ∧ p.perPage = perPage ∧ p.count = count := by
  obtain ⟨table, htable, _, _⟩ := Table.exists_orderedBy hsuits.fits
  refine ⟨table, _, htable, dif_pos hper, ?_, rfl, rfl, rfl, rfl⟩
  exact ⟨hsuits, htable, hlength, rfl⟩

theorem exists_serves (hsuits : key.Suits records) (hlength : records.length ≤ maxLength)
    (hper : 1 < perPage) :
    ∃ table p, Table.orderedBy key records = .ok table ∧
      make table key perPage records.length = .ok p ∧ p.Serves records ∧
      p.store = table ∧ p.key = key ∧ p.perPage = perPage := by
  obtain ⟨table, p, htable, hmake, hholds, hstore, hkey, hperPage, hcount⟩ :=
    exists_holds hsuits hlength hper records.length
  exact ⟨table, p, htable, hmake, ⟨hholds, by rw [hcount]⟩, hstore, hkey, hperPage⟩

end

/-! ## Cutting pages out of views -/

section

variable {α : Type}

private theorem splitNext_cut (xs : List α) (start perPage : Nat) :
    splitNext perPage ((xs.drop start).take (perPage + 1)) =
      ((xs.drop start).take perPage, xs[start + perPage]?) := by
  rw [← List.getElem?_drop]
  generalize xs.drop start = ys
  rw [splitNext, List.length_take]
  by_cases hmore : perPage < ys.length
  · rw [if_pos (by omega), ← List.take_append_getElem hmore, List.dropLast_concat,
      List.getLast?_concat, List.getElem?_eq_getElem hmore]
  · rw [if_neg (by omega), List.take_of_length_le (by omega), List.take_of_length_le (by omega),
      List.getElem?_eq_none (by omega)]

private theorem take_add_drop {ceiling : Ceiling} {xs : List α}
    (h : ceiling.Exceeds xs.length) (offset m n : Nat) :
    (xs.take (ceiling.add offset (ceiling.add m n))).drop offset =
      (xs.drop offset).take (m + n) := by
  rw [ceiling.add_add, h.take_add, List.drop_take, Nat.add_sub_cancel_left]

/-- What a backward cut keeps, put in order: the page and the record after it. -/
private theorem backwardCut_eq {xs : List α} {stop offset : Nat} (perPage : Nat)
    (hstop : offset + perPage + 2 ≤ stop) (hlength : stop ≤ xs.length)
    (hnext : stop - offset - 1 < xs.length) :
    (((xs.take stop).reverse.drop offset).take (perPage + 2)).dropLast.reverse =
      (xs.take (stop - offset - 1)).drop (stop - offset - 1 - perPage) ++
        [xs[stop - offset - 1]] := by
  have hskip : (xs.take stop).reverse.drop offset = (xs.take (stop - offset)).reverse := by
    rw [List.drop_reverse, List.length_take, Nat.min_eq_left hlength, List.take_take,
      Nat.min_eq_left (Nat.sub_le _ _)]
  have hcut : (xs.take (stop - offset)).reverse.take (perPage + 2) =
      ((xs.take (stop - offset)).drop (stop - offset - (perPage + 2))).reverse := by
    rw [List.take_reverse, List.length_take, Nat.min_eq_left (by omega)]
  have hall : xs.take (stop - offset) = xs.take (stop - offset - 1) ++ [xs[stop - offset - 1]] := by
    rw [List.take_append_getElem hnext]
    congr 1
    omega
  have hfirst : stop - offset - (perPage + 2) + 1 = stop - offset - 1 - perPage := by omega
  rw [hskip, hcut, List.dropLast_reverse, List.reverse_reverse, List.tail_drop, hfirst, hall]
  apply List.drop_append_of_le_length
  rw [List.length_take]
  omega

end

theorem firstPage_eq (hroom : p.ceiling.Exceeds p.store.records.length) :
    p.firstPage.result = .ok (p.pageFrom 0 0 true) := by
  have hcut : Store.slice p.store 0 (p.ceiling.add p.perPage 1) =
      .ok ((p.store.records.drop 0).take (p.perPage + 1)) := by
    simp only [Store.slice, hroom.take_add, List.drop_zero]
  have hsplit := splitNext_cut p.store.records 0 p.perPage
  rw [firstPage, hcut]
  simp only [hsplit]
  rw [pageFrom]

theorem lastPage_eq : p.lastPage = .ok (p.pageBefore p.store.records.length 0) := by
  have hcut : ((p.store.records.reverse.take p.perPage).drop 0).reverse =
      (p.store.records.take p.store.records.length).drop
        (p.store.records.length - p.perPage) := by
    rw [List.drop_zero, List.take_reverse, List.reverse_reverse, List.take_length]
  have hnone : p.store.records[p.store.records.length]? = none :=
    List.getElem?_eq_none (Nat.le_refl _)
  rw [lastPage, pageBefore, hnone, ← hcut]
  rfl

variable {token : Token}

omit [Record R] in
private theorem fits_of_boundary {v : Scalar}
    (h : p.boundary (E := Incomparable) token = .ok v) : v.fits p.key.kind = true := by
  rw [boundary] at h
  split at h
  · cases h
  · rename_i value _
    cases hvalue : p.key.kind.ofJson? value with
    | none => simp [ScalarKind.decode, hvalue, Except.mapError] at h
    | some w =>
      simp only [ScalarKind.decode, hvalue, Except.mapError, Except.ok.injEq] at h
      exact h ▸ ScalarKind.fits_of_ofJson? hvalue

/-- A forward page is the window from the offset on, counted from the first record that is not
before the boundary. -/
theorem forwardPage_eq (hp : p.IsSorted) (hroom : p.ceiling.Exceeds p.store.records.length) :
    p.forwardPage token =
      p.boundary token >>= fun v => p.boundaryWindow .forward v token.offset := by
  cases hboundary : p.boundary (E := Incomparable) token with
  | error e => simp only [forwardPage, hboundary, bind, Except.bind]
  | ok v =>
    have hview := hp.view_forward (fits_of_boundary hboundary)
    have hroom' : p.ceiling.Exceeds (p.store.records.drop (p.before v)).length :=
      hroom.mono (by simp)
    have hcut : Store.slice (⟨p.store.records.drop (p.before v)⟩ : Table R) token.offset
        (p.ceiling.add token.offset (p.ceiling.add p.perPage 1)) =
          .ok ((p.store.records.drop (p.before v + token.offset)).take (p.perPage + 1)) := by
      simp only [Store.slice, take_add_drop hroom', List.drop_drop]
    have hsplit := splitNext_cut p.store.records (p.before v + token.offset) p.perPage
    have hempty : ((p.store.records.drop (p.before v + token.offset)).take p.perPage).isEmpty = true ↔
        p.store.records.length ≤ p.before v + token.offset := by
      have hper := p.one_lt_perPage
      rw [List.isEmpty_iff, ← List.length_eq_zero_iff, List.length_take, List.length_drop]
      omega
    simp only [forwardPage, hboundary, hview, hcut, hsplit, Except.mapError, bind, Except.bind,
      boundaryWindow]
    by_cases hend : p.store.records.length ≤ p.before v + token.offset
    · rw [if_pos (hempty.2 hend), if_pos hend]
    · rw [if_neg (fun h => hend (hempty.1 h)), if_neg hend]
      rfl

/-- A backward page is the window before the record at the offset, counted from the last one that
is not after the boundary. -/
theorem backwardPage_eq (hp : p.IsSorted) (hroom : p.ceiling.Exceeds p.store.records.length) :
    p.backwardPage token =
      p.boundary token >>= fun v => p.boundaryWindow .backward v token.offset := by
  cases hboundary : p.boundary (E := Incomparable) token with
  | error e => simp only [backwardPage, hboundary, bind, Except.bind]
  | ok v =>
    have hview := hp.view_backward (fits_of_boundary hboundary)
    have hupTo := p.upTo_le (v := v)
    have hroom' : p.ceiling.Exceeds (p.store.records.take (p.upTo v)).reverse.length :=
      hroom.mono (by simp)
    have hcut : Store.slice (Store.reverse (⟨p.store.records.take (p.upTo v)⟩ : Table R))
        token.offset (p.ceiling.add token.offset (p.ceiling.add p.perPage 2)) =
          .ok (((p.store.records.take (p.upTo v)).reverse.drop token.offset).take
            (p.perPage + 2)) := by
      simp only [Store.slice, Store.reverse, take_add_drop hroom']
    have hlength : (((p.store.records.take (p.upTo v)).reverse.drop token.offset).take
        (p.perPage + 2)).length = min (p.perPage + 2) (p.upTo v - token.offset) := by
      rw [List.length_take, List.length_drop, List.length_reverse, List.length_take,
        Nat.min_eq_left hupTo]
    simp only [backwardPage, hboundary, hview, hcut, hlength, Except.mapError, bind, Except.bind,
      boundaryWindow]
    by_cases hshort : p.upTo v < token.offset + p.perPage + 2
    · have hne : min (p.perPage + 2) (p.upTo v - token.offset) ≠ p.ceiling.add p.perPage 2 :=
        Nat.ne_of_lt (hroom.lt_add (by omega) (by omega))
      rw [if_pos hne, if_pos hshort]
    · have hsize := hroom.add_eq (m := p.perPage) (n := 2) (by omega)
      have hnext : p.upTo v - token.offset - 1 < p.store.records.length := by omega
      have hinOrder := backwardCut_eq p.perPage (by omega) hupTo hnext
      rw [if_neg (by rw [hsize]; omega), if_neg hshort]
      simp only [hinOrder, List.dropLast_concat, List.getLast?_concat, pure, Except.pure]
      rw [pageBefore, List.getElem?_eq_getElem hnext]

private theorem boundaryPage_result (p : Paginator (Table R)) (token : Token) :
    (p.boundaryPage token).result = (p.checkKey token >>= fun _ => match token.kind with
      | .forward => p.forwardPage token
      | .backward => p.backwardPage token
      | _ => p.lastPage) := by
  rw [boundaryPage]
  split
  · next h => exact h.symm
  · next h => exact h.symm

/-- The page of a token is the window that its boundary and its offset name. -/
theorem page_result_eq (hp : p.Serves records) (token : Option Token) :
    (p.page token).result = p.window token := by
  have hsorted := hp.isSorted
  have hroom : p.ceiling.Exceeds p.store.records.length := hp.exceeds.mono (by omega)
  cases token with
  | none => exact firstPage_eq hroom
  | some token =>
    have hcount : p.perPage < p.count ↔ ¬ p.store.records.length ≤ p.perPage := by
      rw [hp.many_iff, ← hp.length_eq, not_le]
    rw [page, window]
    by_cases hfirst : token.kind = .first ∨ p.store.records.length ≤ p.perPage
    · rw [if_pos hfirst, if_neg (by rwa [hcount, Ne, ← not_or, not_not])]
      exact firstPage_eq hroom
    · rw [if_neg hfirst, if_pos (by rwa [hcount, Ne, ← not_or]), boundaryPage_result, checkKey]
      cases hkey : token.key with
      | none => rfl
      | some key =>
        dsimp only
        by_cases hother : key = p.key.key
        · rw [if_pos hother, if_neg (not_not.2 hother)]
          cases hkind : token.kind with
          | first => exact absurd (.inl hkind) hfirst
          | last => exact lastPage_eq
          | forward =>
            simp only [bind, Except.bind, forwardPage_eq hsorted hroom, boundary]
            cases token.value with
            | none => rfl
            | some value =>
              simp only [ScalarKind.decode]
              cases p.key.kind.ofJson? value <;> rfl
          | backward =>
            simp only [bind, Except.bind, backwardPage_eq hsorted hroom, boundary]
            cases token.value with
            | none => rfl
            | some value =>
              simp only [ScalarKind.decode]
              cases p.key.kind.ofJson? value <;> rfl
        · rw [if_neg hother, if_pos hother]
          rfl

/-- For suitable records, the pages of all tokens are the windows that the tokens name. -/
theorem pages_eq_windows {key : SortKey} {perPage : Nat} (hsuits : key.Suits records)
    (hlength : records.length ≤ maxLength) (hper : 1 < perPage) :
    ∃ table p, Table.orderedBy key records = .ok table ∧
      make table key perPage records.length = .ok p ∧
      ∀ token : Option Token, (p.page token).result = p.window token := by
  obtain ⟨table, p, htable, hmake, hp, _⟩ := exists_serves hsuits hlength hper
  exact ⟨table, p, htable, hmake, page_result_eq hp⟩

end Paginator

/-! ## Listings by rank -/

def rankKey (descending : Bool) : SortKey where
  key := "rank"
  route := .single ⟨["rank"], by decide⟩ ⟨"rank", true, .scalar .integer⟩
  descending := descending
  kind := .integer

def ranked (ranks : List Scalar) : List Row :=
  ranks.zipIdx.map fun (rank, i) => ⟨i + 1, [("rank", rank)]⟩

theorem pages_eq_windows_ranked :
    ∃ table p, Table.orderedBy (rankKey true) (ranked [.int 2, .null, .int 2, .int 1]) = .ok table ∧
      Paginator.make table (rankKey true) 2 4 = .ok p ∧
      ∀ token : Option Token, (p.page token).result = p.window token :=
  Paginator.pages_eq_windows ⟨by decide, by decide⟩ (by decide) (by decide)

end Keyset
