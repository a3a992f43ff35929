import Keyset.Page.Fetch
import Keyset.Proofs.WordCounters

/-!
# Pages found with words

The same paginator with words for all of its numbers. None is what it gives where a word has no
result and the program stops. Under a ceiling that positions in a list and their sums stay below, a
page found with words is the page found with natural numbers: a sum that reaches the ceiling lies
beyond the end of the store on both sides.
-/
namespace Keyset

def Logged.map {α β : Type} (f : α → β) (logged : Logged α) : Logged β :=
  ⟨f logged.result, logged.events⟩

structure WordToken where
  kind : PageKind
  key : Option String
  value : Option Json.Value
  offset : Word

def WordToken.exact (token : WordToken) : Token :=
  ⟨token.kind, token.key, token.value, token.offset.toNat⟩

/-- A paginator whose numbers are words. -/
structure WordPaginator (C : Type) where
  store : C
  key : SortKey
  perPage : Word
  count : Word
  one_lt_perPage : 1 < perPage

/-- The paginator that counts under a ceiling. -/
def WordPaginator.under {C : Type} (p : WordPaginator C) (ceiling : Ceiling) : Paginator C where
  store := p.store
  key := p.key
  perPage := p.perPage.toNat
  count := p.count.toNat
  one_lt_perPage := UInt64.lt_iff_toNat_lt.1 p.one_lt_perPage
  ceiling := ceiling

structure WordPage (C R : Type) where
  paginator : WordPaginator C
  records : List R
  forward : Bool
  offset : Word
  nextItem : Option R
  isFirst : Bool
  duplicates : List (Scalar × Word) := []

/-- The page that counts under a ceiling. -/
def WordPage.under {C R : Type} (page : WordPage C R) (ceiling : Ceiling) : Page C R where
  paginator := page.paginator.under ceiling
  records := page.records
  forward := page.forward
  offset := page.offset.toNat
  nextItem := page.nextItem
  isFirst := page.isFirst
  duplicates := page.duplicates.map fun entry => (entry.1, entry.2.toNat)

/-! ## Pages of small numbers -/

/-- The numbers of a page are positions in a list, and so is the size of its store. -/
structure Page.Fits {C R E : Type} [Store C R E] [WordStore C R E] (page : Page C R) : Prop where
  size_le : WordStore.size page.paginator.store ≤ maxLength
  length_le : page.records.length ≤ maxLength
  offset_le : page.offset ≤ maxLength

namespace Paginator

theorem length_splitNext_le {R : Type} (perPage : Nat) (cut : List R) :
    (splitNext perPage cut).1.length ≤ cut.length := by
  rw [splitNext]
  split <;> simp

variable {C R E : Type} [Store C R E] [WordStore C R E] {p : Paginator C} {page : Page C R}

theorem fits_firstPage (hsize : WordStore.size p.store ≤ maxLength)
    (h : p.firstPage.result = .ok page) : page.Fits := by
  rw [firstPage] at h
  cases hcut : Store.slice p.store 0 (p.ceiling.add p.perPage 1) with
  | error e => simp [hcut] at h
  | ok cut =>
    simp only [hcut] at h
    cases h
    have hlength := (WordStore.length_slice_le hcut).trans hsize
    exact ⟨hsize, (length_splitNext_le p.perPage cut).trans hlength, Nat.zero_le _⟩

theorem fits_lastPage (hsize : WordStore.size p.store ≤ maxLength)
    (h : p.lastPage = .ok page) : page.Fits := by
  obtain ⟨cut, hcut, hpage⟩ := exists_of_bind_eq_ok h
  cases hpage
  have hlength := WordStore.length_slice_le (of_mapError_eq_ok hcut)
  rw [WordStore.size_reverse, ← List.length_reverse] at hlength
  exact ⟨hsize, hlength.trans hsize, Nat.zero_le _⟩

theorem size_view_le {value : Scalar} {downwards : Bool} {view : C}
    (h : p.view (E := E) value downwards = .ok view) :
    WordStore.size view ≤ WordStore.size p.store := by
  rw [Paginator.view] at h
  split at h
  · cases h
    exact Nat.le_refl _
  · exact WordStore.size_select_le (of_mapError_eq_ok h)

theorem fits_forwardPage {token : Token} (hsize : WordStore.size p.store ≤ maxLength)
    (h : p.forwardPage token = .ok page) : page.Fits := by
  obtain ⟨value, _, h⟩ := exists_of_bind_eq_ok h
  obtain ⟨view, hview, h⟩ := exists_of_bind_eq_ok h
  obtain ⟨cut, hcut, h⟩ := exists_of_bind_eq_ok h
  have hcut := of_mapError_eq_ok hcut
  have hle := (size_view_le hview).trans hsize
  have hpage := length_splitNext_le p.perPage cut
  dsimp only at h
  split at h
  · cases h
  · next hmore =>
    cases h
    have hmore : 0 < (splitNext p.perPage cut).1.length :=
      Nat.pos_of_ne_zero fun hnone => hmore (List.isEmpty_iff_length_eq_zero.2 hnone)
    have hstart := WordStore.start_lt_size hcut (hmore.trans_le hpage)
    have hlength := hpage.trans (WordStore.length_slice_le hcut)
    exact ⟨hsize, hlength.trans hle, hstart.le.trans hle⟩

/-- The cut of a backward page is never empty, so its offset is a position in the view. -/
theorem fits_backwardPage {token : Token} (hceiling : p.ceiling.IsHigh)
    (hsize : WordStore.size p.store ≤ maxLength) (h : p.backwardPage token = .ok page) :
    page.Fits := by
  obtain ⟨value, _, h⟩ := exists_of_bind_eq_ok h
  obtain ⟨view, hview, h⟩ := exists_of_bind_eq_ok h
  obtain ⟨cut, hcut, h⟩ := exists_of_bind_eq_ok h
  have hcut := of_mapError_eq_ok hcut
  have hle := (size_view_le hview).trans hsize
  rw [← WordStore.size_reverse] at hle
  dsimp only at h
  split at h
  · cases h
  · next hwhole =>
    cases h
    have hmore : 0 < cut.length := by
      rw [not_not.1 hwhole]
      exact hceiling.lt_add (Nat.zero_le _) (by omega)
    have hstart := WordStore.start_lt_size hcut hmore
    have hlength := WordStore.length_slice_le hcut
    refine ⟨hsize, ?_, hstart.le.trans hle⟩
    simp only [List.length_dropLast, List.length_reverse]
    omega

def fetch (p : Paginator C) (token : Token) : Except (PageError E) (Page C R) := do
  p.checkKey token
  match token.kind with
  | .forward => p.forwardPage token
  | .backward => p.backwardPage token
  | _ => p.lastPage

omit [WordStore C R E] in
theorem boundaryPage_eq (p : Paginator C) (token : Token) :
    p.boundaryPage (R := R) (E := E) token = match p.fetch token with
      | .error e => ⟨.error e, []⟩
      | .ok page =>
        ⟨.ok page,
          [.page token.kind p.key.key token.offset page.records.length page.hasNext]⟩ := rfl

theorem fits_fetch {token : Token} (hceiling : p.ceiling.IsHigh)
    (hsize : WordStore.size p.store ≤ maxLength) (h : p.fetch token = .ok page) : page.Fits := by
  obtain ⟨_, _, h⟩ := exists_of_bind_eq_ok h
  split at h
  · exact fits_forwardPage hsize h
  · exact fits_backwardPage hceiling hsize h
  · exact fits_lastPage hsize h

omit [WordStore C R E] in
theorem firstPage_or_fetch_of_page_eq_ok {token : Option Token}
    (h : (p.page token).result = .ok page) :
    p.firstPage.result = .ok page ∨ ∃ t ∈ token, p.fetch t = .ok page := by
  cases token with
  | none => exact .inl h
  | some token =>
    rw [Paginator.page] at h
    split at h
    · rw [boundaryPage_eq] at h
      cases hfetch : p.fetch (R := R) (E := E) token with
      | error e => simp [hfetch] at h
      | ok fetched =>
        simp only [hfetch, Except.ok.injEq] at h
        exact .inr ⟨token, rfl, h ▸ hfetch⟩
    · exact .inl h

theorem fits_page {token : Option Token} (hceiling : p.ceiling.IsHigh)
    (hsize : WordStore.size p.store ≤ maxLength) (h : (p.page token).result = .ok page) :
    page.Fits := by
  obtain hfirst | ⟨t, _, hfetch⟩ := firstPage_or_fetch_of_page_eq_ok h
  · exact fits_firstPage hsize hfirst
  · exact fits_fetch hceiling hsize hfetch

end Paginator

namespace WordPaginator

variable {C R E : Type}

/-- The records of a cut that belong to a page, and the one after them. -/
def splitNext? (perPage : Word) (records : List R) : Option (List R × Option R) := do
  let length ← Word.length? records
  return if perPage < length then (records.dropLast, records.getLast?) else (records, none)

section

variable [Store C R E] [WordStore C R E]

def firstPage? (p : WordPaginator C) :
    Option (Logged (Except (PageError E) (WordPage C R))) := do
  match ← WordStore.slice? p.store 0 (Word.addCapped p.perPage 1) with
  | .error e => return ⟨.error (.store e), []⟩
  | .ok cut =>
    let (records, next) ← splitNext? p.perPage cut
    let size ← Word.length? records
    return ⟨.ok ⟨p, records, true, 0, next, true, []⟩, [.firstPage p.key.key size.toNat]⟩

def lastPage? (p : WordPaginator C) : Option (Except (PageError E) (WordPage C R)) := do
  match ← WordStore.slice? (Store.reverse p.store) 0 p.perPage with
  | .error e => return .error (.store e)
  | .ok cut => return .ok ⟨p, cut.reverse, false, 0, none, false, []⟩

/-- The store with the records at the boundary of a token and beyond. No number is needed for it. -/
def view (p : WordPaginator C) (token : WordToken) (downwards : Bool) : Except (PageError E) C := do
  let value ← (p.under wordCeiling).boundary token.exact
  (p.under wordCeiling).view value downwards

def forwardPage? (p : WordPaginator C) (token : WordToken) :
    Option (Except (PageError E) (WordPage C R)) :=
  match p.view token p.key.descending with
  | .error e => some (.error e)
  | .ok view => do
    let stop := Word.addCapped token.offset (Word.addCapped p.perPage 1)
    match ← WordStore.slice? view token.offset stop with
    | .error e => return .error (.store e)
    | .ok cut =>
      let (records, next) ← splitNext? p.perPage cut
      if records.isEmpty then return .error .endOfSequence
      else return .ok ⟨p, records, true, token.offset, next, false, []⟩

def backwardPage? (p : WordPaginator C) (token : WordToken) :
    Option (Except (PageError E) (WordPage C R)) :=
  match p.view token (!p.key.descending) with
  | .error e => some (.error e)
  | .ok view => do
    let size := Word.addCapped p.perPage 2
    let stop := Word.addCapped token.offset size
    match ← WordStore.slice? (Store.reverse view) token.offset stop with
    | .error e => return .error (.store e)
    | .ok cut =>
      let length ← Word.length? cut
      if length ≠ size then return .error .startOfSequence
      else
        let inOrder := cut.dropLast.reverse
        return .ok ⟨p, inOrder.dropLast, false, token.offset, inOrder.getLast?, false, []⟩

def fetch? (p : WordPaginator C) (token : WordToken) :
    Option (Except (PageError E) (WordPage C R)) :=
  match (p.under wordCeiling).checkKey token.exact with
  | .error e => some (.error e)
  | .ok _ => match token.kind with
    | .forward => p.forwardPage? token
    | .backward => p.backwardPage? token
    | _ => p.lastPage?

/-- The page of a token of these kinds, reported with its size. -/
def boundaryPage? (p : WordPaginator C) (token : WordToken) :
    Option (Logged (Except (PageError E) (WordPage C R))) := do
  match ← p.fetch? token with
  | .error e => return ⟨.error e, []⟩
  | .ok page =>
    let size ← Word.length? page.records
    return ⟨.ok page,
      [.page token.kind p.key.key token.offset.toNat size.toNat page.nextItem.isSome]⟩

def page? (p : WordPaginator C) :
    Option WordToken → Option (Logged (Except (PageError E) (WordPage C R)))
  | none => p.firstPage?
  | some token =>
    if token.kind ≠ .first ∧ p.perPage < p.count then p.boundaryPage? token else p.firstPage?

def countDuplicates? (p : WordPaginator C) (value : Scalar) :
    Option (Except (PageError E) Word) :=
  match Store.select p.store p.key.path (.sameAs value) with
  | .error e => some (.error (.store e))
  | .ok same => (WordStore.count? same).map (·.mapError .store)

/-! ## The pages are the same -/

variable {ceiling : Ceiling} {p : WordPaginator C} {cut : List R}

/-- Where a sum is cut at a ceiling, it is beyond the end of the store anyway. -/
theorem slice?_of_sum {c : C} {start stop : Word} {m n : Nat} (hceiling : ceiling.IsHigh)
    (hc : WordStore.size c ≤ maxLength) (hstop : stop.toNat = wordCeiling.add m n) :
    WordStore.slice? c start stop = some (Store.slice c start.toNat (ceiling.add m n)) := by
  have hle : WordStore.size c ≤ 2 * maxLength := by omega
  rw [WordStore.slice?_eq hc, hstop, WordStore.slice_add (Ceiling.isHigh_wordCeiling.mono hle),
    WordStore.slice_add (hceiling.mono hle)]

/-- A cut of a page from an offset on, with some records more. -/
theorem slice?_ahead {c : C} (hceiling : ceiling.IsHigh) (hc : WordStore.size c ≤ maxLength)
    (offset perPage more : Word) :
    WordStore.slice? c offset (Word.addCapped offset (Word.addCapped perPage more)) =
      some (Store.slice c offset.toNat
        (ceiling.add offset.toNat (ceiling.add perPage.toNat more.toNat))) := by
  rw [Ceiling.add_add]
  apply slice?_of_sum hceiling hc
  rw [Word.toNat_addCapped, Word.toNat_addCapped, Ceiling.add_add]

omit [Store C R E] [WordStore C R E] in
theorem splitNext?_eq (perPage : Word) (h : cut.length ≤ maxLength) :
    splitNext? perPage cut = some (Paginator.splitNext perPage.toNat cut) := by
  obtain ⟨length, hlength, hlengthNat⟩ := Word.exists_length?_eq h
  simp only [splitNext?, hlength, Option.bind_eq_bind, Option.bind_some, UInt64.lt_iff_toNat_lt,
    hlengthNat]
  rfl

theorem firstPage?_eq (hceiling : ceiling.IsHigh) (hsize : WordStore.size p.store ≤ maxLength) :
    p.firstPage?.map (Logged.map (Except.map (·.under ceiling))) =
      some (p.under ceiling).firstPage := by
  have hslice : WordStore.slice? p.store 0 _ = _ :=
    slice?_of_sum hceiling hsize (Word.toNat_addCapped p.perPage 1)
  rw [UInt64.toNat_one, UInt64.toNat_zero] at hslice
  cases hcut : Store.slice p.store 0 (ceiling.add p.perPage.toNat 1) with
  | error e =>
    simp only [firstPage?, hslice, hcut, Paginator.firstPage, under, Option.bind_eq_bind,
      Option.bind_some]
    rfl
  | ok cut =>
    have hlength : cut.length ≤ maxLength := (WordStore.length_slice_le hcut).trans hsize
    have hpage := (Paginator.length_splitNext_le p.perPage.toNat cut).trans hlength
    obtain ⟨size, hsize, hsizeNat⟩ := Word.exists_length?_eq hpage
    simp only [firstPage?, hslice, hcut, splitNext?_eq p.perPage hlength, hsize,
      Paginator.firstPage, under, Option.bind_eq_bind, Option.bind_some, ← hsizeNat]
    rfl

theorem lastPage?_eq (hsize : WordStore.size p.store ≤ maxLength) :
    p.lastPage?.map (Except.map (·.under ceiling)) = some (p.under ceiling).lastPage := by
  have hreverse : WordStore.size (Store.reverse p.store) ≤ maxLength := by
    rwa [WordStore.size_reverse]
  have hslice := WordStore.slice?_eq hreverse 0 p.perPage
  rw [UInt64.toNat_zero] at hslice
  cases hcut : Store.slice (Store.reverse p.store) 0 p.perPage.toNat with
  | error e =>
    simp only [lastPage?, hslice, hcut, Paginator.lastPage, under, Option.bind_eq_bind,
      Option.bind_some]
    rfl
  | ok cut =>
    simp only [lastPage?, hslice, hcut, Paginator.lastPage, under, Option.bind_eq_bind,
      Option.bind_some]
    rfl

theorem size_view_le {token : WordToken} {downwards : Bool} {view : C}
    (h : p.view (E := E) token downwards = .ok view) :
    WordStore.size view ≤ WordStore.size p.store := by
  obtain ⟨value, _, hview⟩ := exists_of_bind_eq_ok h
  exact Paginator.size_view_le hview

theorem forwardPage?_eq (hceiling : ceiling.IsHigh) (hsize : WordStore.size p.store ≤ maxLength)
    (token : WordToken) :
    (p.forwardPage? token).map (Except.map (·.under ceiling)) =
      some ((p.under ceiling).forwardPage token.exact) := by
  rw [forwardPage?, Paginator.forwardPage, ← bind_assoc]
  change _ = some (p.view token p.key.descending >>= _)
  cases hview : p.view (E := E) token p.key.descending with
  | error e => rfl
  | ok view =>
    have hsize' := (size_view_le hview).trans hsize
    have hslice : WordStore.slice? view token.offset _ = some (Store.slice view token.exact.offset
        ((p.under ceiling).ceiling.add token.exact.offset
          ((p.under ceiling).ceiling.add (p.under ceiling).perPage 1))) :=
      slice?_ahead hceiling hsize' token.offset p.perPage 1
    simp only [hslice]
    cases hcut : Store.slice view token.exact.offset
        ((p.under ceiling).ceiling.add token.exact.offset
          ((p.under ceiling).ceiling.add (p.under ceiling).perPage 1)) with
    | error e =>
      simp only [hcut, Except.mapError, bind, Except.bind, Option.bind]
      rfl
    | ok cut =>
      have hlength : cut.length ≤ maxLength := (WordStore.length_slice_le hcut).trans hsize'
      have hsplit : splitNext? p.perPage cut =
          some (Paginator.splitNext (p.under ceiling).perPage cut) :=
        splitNext?_eq p.perPage hlength
      simp only [hcut, hsplit, Except.mapError, bind, Except.bind, Option.bind]
      by_cases hempty : (Paginator.splitNext (p.under ceiling).perPage cut).1.isEmpty = true
      · rw [if_pos hempty, if_pos hempty]
        rfl
      · rw [if_neg hempty, if_neg hempty]
        rfl

theorem backwardPage?_eq (hceiling : ceiling.IsHigh) (hsize : WordStore.size p.store ≤ maxLength)
    (token : WordToken) :
    (p.backwardPage? token).map (Except.map (·.under ceiling)) =
      some ((p.under ceiling).backwardPage token.exact) := by
  rw [backwardPage?, Paginator.backwardPage, ← bind_assoc]
  change _ = some (p.view token (!p.key.descending) >>= _)
  cases hview : p.view (E := E) token (!p.key.descending) with
  | error e => rfl
  | ok view =>
    have hsize' := (size_view_le hview).trans hsize
    rw [← WordStore.size_reverse] at hsize'
    have hslice : WordStore.slice? (Store.reverse view) token.offset _ =
        some (Store.slice (Store.reverse view) token.exact.offset
          ((p.under ceiling).ceiling.add token.exact.offset
            ((p.under ceiling).ceiling.add (p.under ceiling).perPage 2))) :=
      slice?_ahead hceiling hsize' token.offset p.perPage 2
    simp only [hslice]
    cases hcut : Store.slice (Store.reverse view) token.exact.offset
        ((p.under ceiling).ceiling.add token.exact.offset
          ((p.under ceiling).ceiling.add (p.under ceiling).perPage 2)) with
    | error e =>
      simp only [hcut, Except.mapError, bind, Except.bind, Option.bind]
      rfl
    | ok cut =>
      have hlength : cut.length ≤ maxLength := (WordStore.length_slice_le hcut).trans hsize'
      obtain ⟨length, hlength?, hlengthNat⟩ := Word.exists_length?_eq hlength
      -- no cut is as long as a ceiling, so the ceilings do not tell whether it is whole
      have hshort : length ≠ Word.addCapped p.perPage 2 ↔
          cut.length ≠ (p.under ceiling).ceiling.add (p.under ceiling).perPage 2 := by
        have hle : cut.length ≤ 2 * maxLength := by omega
        have hword : length = Word.addCapped p.perPage 2 ↔
            cut.length = p.perPage.toNat + 2 := by
          rw [← UInt64.toNat_inj, hlengthNat, Word.toNat_addCapped]
          exact (Ceiling.isHigh_wordCeiling.mono hle).eq_add_iff p.perPage.toNat 2
        exact not_congr (hword.trans ((hceiling.mono hle).eq_add_iff p.perPage.toNat 2).symm)
      simp only [hcut, hlength?, Except.mapError, bind, Except.bind, Option.bind]
      by_cases h : cut.length ≠ (p.under ceiling).ceiling.add (p.under ceiling).perPage 2
      · rw [if_pos (hshort.2 h), if_pos h]
        rfl
      · rw [if_neg (mt hshort.1 h), if_neg h]
        rfl

theorem fetch?_eq (hceiling : ceiling.IsHigh) (hsize : WordStore.size p.store ≤ maxLength)
    (token : WordToken) :
    (p.fetch? token).map (Except.map (·.under ceiling)) =
      some ((p.under ceiling).fetch token.exact) := by
  rw [fetch?, Paginator.fetch]
  change _ = some ((p.under wordCeiling).checkKey token.exact >>= _)
  cases (p.under wordCeiling).checkKey (E := E) token.exact with
  | error e => rfl
  | ok _ =>
    simp only [bind, Except.bind]
    change _ = some (match token.kind with
      | .forward => _
      | .backward => _
      | _ => _)
    cases token.kind with
    | forward => exact forwardPage?_eq hceiling hsize token
    | backward => exact backwardPage?_eq hceiling hsize token
    | first => exact lastPage?_eq hsize
    | last => exact lastPage?_eq hsize

theorem boundaryPage?_eq (hceiling : ceiling.IsHigh) (hsize : WordStore.size p.store ≤ maxLength)
    (token : WordToken) :
    (p.boundaryPage? token).map (Logged.map (Except.map (·.under ceiling))) =
      some ((p.under ceiling).boundaryPage token.exact) := by
  obtain ⟨fetched, hfetched, hexact⟩ :=
    Option.map_eq_some_iff.1 (fetch?_eq (p := p) hceiling hsize token)
  rw [boundaryPage?, Paginator.boundaryPage_eq, ← hexact]
  cases fetched with
  | error e =>
    simp only [hfetched, Option.bind_eq_bind, Option.bind_some]
    rfl
  | ok page =>
    have hfits : (page.under ceiling).Fits := Paginator.fits_fetch hceiling hsize hexact.symm
    obtain ⟨size, hsize, hsizeNat⟩ := Word.exists_length?_eq hfits.length_le
    have hlength : Word.length? page.records = some size := hsize
    simp only [hfetched, hlength, Option.bind_eq_bind, Option.bind_some, Except.map, ← hsizeNat]
    rfl

/-- With words and under a high ceiling, a paginator finds the same page of a token. -/
theorem page?_eq (hceiling : ceiling.IsHigh) (hsize : WordStore.size p.store ≤ maxLength)
    (token : Option WordToken) :
    (p.page? token).map (Logged.map (Except.map (·.under ceiling))) =
      some ((p.under ceiling).page (token.map WordToken.exact)) := by
  cases token with
  | none => exact firstPage?_eq hceiling hsize
  | some token =>
    have hmany : token.kind ≠ .first ∧ p.perPage < p.count ↔
        token.exact.kind ≠ .first ∧ (p.under ceiling).perPage < (p.under ceiling).count :=
      and_congr_right fun _ => UInt64.lt_iff_toNat_lt
    rw [page?, Option.map_some, Paginator.page]
    by_cases h : token.kind ≠ .first ∧ p.perPage < p.count
    · rw [if_pos h, if_pos (hmany.1 h)]
      exact boundaryPage?_eq hceiling hsize token
    · rw [if_neg h, if_neg (mt hmany.2 h)]
      exact firstPage?_eq hceiling hsize

theorem countDuplicates?_eq (ceiling : Ceiling) (hsize : WordStore.size p.store ≤ maxLength)
    (value : Scalar) :
    (p.countDuplicates? value).map (Except.map UInt64.toNat) =
      some ((p.under ceiling).countDuplicates value) := by
  rw [countDuplicates?, Paginator.countDuplicates]
  change _ = some ((Store.select p.store p.key.path (.sameAs value)).mapError PageError.store >>= _)
  cases hselect : Store.select p.store p.key.path (.sameAs value) with
  | error e => rfl
  | ok same =>
    have hsame := (WordStore.size_select_le hselect).trans hsize
    obtain ⟨count, hcount, hexact⟩ := Option.map_eq_some_iff.1 (WordStore.count?_eq hsame)
    simp only [hcount, Except.mapError, bind, Except.bind, ← hexact]
    cases count <;> rfl

end

end WordPaginator

end Keyset
