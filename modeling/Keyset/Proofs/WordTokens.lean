import Keyset.Page.Neighbours
import Keyset.Proofs.TextWalks
import Keyset.Proofs.WordPages

/-!
# Tokens found with words

A page is asked for its own token and for those of its neighbours, as often as one likes, and
remembers the counts that it needs for them. With words it answers what it answers with natural
numbers that have no bound: of a page that fits, no sum comes near the largest word.
-/
namespace Keyset

/-! ## Asking a page -/

namespace Page

variable {C R E : Type} [Record R] [Store C R E]

def answer (page : Page C R) : Link → Answer C R (Except (PageError E) (Option Token))
  | .again => ⟨.ok (some page.info), page, []⟩
  | .next => page.nextToken
  | .previous => page.previousToken

def answers (page : Page C R) :
    List Link → Answer C R (List (Except (PageError E) (Option Token)))
  | [] => ⟨[], page, []⟩
  | link :: links =>
    let first := page.answer link
    let rest := first.page.answers links
    ⟨first.result :: rest.result, rest.page, first.events ++ rest.events⟩

def offsetOfNext (page : Page C R) (next : R) : Answer C R (Except (PageError E) Nat) :=
  let value := page.scalarOf next
  let run := page.runLength value page.records.reverse
  if run = page.paginator.perPage then
    if page.forward then ⟨.ok (page.paginator.ceiling.add run page.offset), page, []⟩
    else page.remainingDuplicates value page.offset
  else ⟨.ok run, page, []⟩

def offsetOfPrevious (page : Page C R) (first : R) (rest : List R) :
    Answer C R (Except (PageError E) Nat) :=
  let value := page.scalarOf first
  let run := page.runLength value rest
  let goesOn := page.nextItem.any fun next => (page.scalarOf next).same value
  let ceiling := page.paginator.ceiling
  if run = page.paginator.perPage - 1 then
    if page.forward then page.remainingDuplicates value page.offset
    else if goesOn then ⟨.ok (ceiling.add (ceiling.add run page.offset) 1), page, []⟩
    else ⟨.ok run, page, []⟩
  else ⟨.ok run, page, []⟩

theorem nextToken_eq (page : Page C R) :
    page.nextToken (E := E) = match page.nextItem with
      | none => ⟨.ok none, page, []⟩
      | some next =>
        tokenAt (.forward page.paginator.key.key (page.scalarOf next).toJson)
          (page.offsetOfNext next) := rfl

theorem previousToken_eq (page : Page C R) :
    page.previousToken (E := E) = match page.isFirst, page.records with
      | false, first :: rest =>
        tokenAt (.backward page.paginator.key.key (page.scalarOf first).toJson)
          (page.offsetOfPrevious first rest)
      | _, _ => ⟨.ok none, page, []⟩ := rfl

/-! ## Only the counts change -/

omit [Record R] in
theorem countDuplicates_page (page : Page C R) (value : Scalar) :
    ∃ duplicates, (page.countDuplicates value).page = { page with duplicates := duplicates } := by
  rw [countDuplicates]
  split
  · exact ⟨_, rfl⟩
  · split <;> exact ⟨_, rfl⟩

omit [Record R] in
theorem remainingDuplicates_page (page : Page C R) (value : Scalar) (consumed : Nat) :
    ∃ duplicates, (page.remainingDuplicates value consumed).page =
      { page with duplicates := duplicates } := by
  obtain ⟨duplicates, hpage⟩ := page.countDuplicates_page value
  rw [remainingDuplicates]
  dsimp only
  split
  · exact ⟨duplicates, hpage⟩
  · split <;> exact ⟨duplicates, hpage⟩

theorem offsetOfNext_page (page : Page C R) (next : R) :
    ∃ duplicates, (page.offsetOfNext next).page = { page with duplicates := duplicates } := by
  rw [offsetOfNext]
  split
  · split
    · exact ⟨_, rfl⟩
    · exact page.remainingDuplicates_page _ _
  · exact ⟨_, rfl⟩

theorem offsetOfPrevious_page (page : Page C R) (first : R) (rest : List R) :
    ∃ duplicates, (page.offsetOfPrevious first rest).page =
      { page with duplicates := duplicates } := by
  rw [offsetOfPrevious]
  split
  · split
    · exact page.remainingDuplicates_page _ _
    · split <;> exact ⟨_, rfl⟩
  · exact ⟨_, rfl⟩

theorem answer_page (page : Page C R) (link : Link) :
    ∃ duplicates, (page.answer link).page = { page with duplicates := duplicates } := by
  cases link with
  | again => exact ⟨_, rfl⟩
  | next =>
    rw [answer, nextToken_eq]
    split
    · exact ⟨_, rfl⟩
    · exact page.offsetOfNext_page _
  | previous =>
    rw [answer, previousToken_eq]
    split
    · exact page.offsetOfPrevious_page _ _
    · exact ⟨_, rfl⟩

theorem Fits.answer [WordStore C R E] {page : Page C R} (h : page.Fits) (link : Link) :
    (page.answer link).page.Fits := by
  obtain ⟨duplicates, hpage⟩ := page.answer_page link
  rw [hpage]
  exact ⟨h.size_le, h.length_le, h.offset_le⟩

end Page

structure Visit (C R E : Type) where
  page : Page C R
  answers : List (Except (PageError E) (Option Token))

def Paginator.visit {C R E : Type} [Record R] [Store C R E] (p : Paginator C)
    (token : Option Token) (links : List Link) : Logged (Except (PageError E) (Visit C R E)) :=
  let found : Logged (Except (PageError E) (Page C R)) := p.page token
  match found.result with
  | .error e => ⟨.error e, found.events⟩
  | .ok page =>
    let answered : Answer C R (List (Except (PageError E) (Option Token))) := page.answers links
    ⟨.ok ⟨answered.page, answered.result⟩, found.events ++ answered.events⟩

/-! ## The same with words -/

structure WordAnswer (C R α : Type) where
  result : α
  page : WordPage C R
  events : List Event

/-- The answer with what it says as numbers, of a page that counts under a ceiling. -/
def WordAnswer.under {C R α β : Type} (f : α → β) (ceiling : Ceiling)
    (answer : WordAnswer C R α) : Answer C R β :=
  ⟨f answer.result, answer.page.under ceiling, answer.events⟩

namespace WordPage

variable {C R E : Type} [Record R]

def scalarOf (page : WordPage C R) (record : R) : Scalar :=
  Record.scalarAt record page.paginator.key.path

def runLength? (page : WordPage C R) (value : Scalar) (records : List R) : Option Word :=
  Word.countWhile? (fun r => (page.scalarOf r).same value) 0 records

def info (page : WordPage C R) : WordToken :=
  let key := page.paginator.key.key
  if page.isFirst then ⟨.first, none, none, 0⟩
  else
    let edge := if page.forward then page.records.head? else page.nextItem
    match edge, page.nextItem with
    | some record, some _ =>
      let value := (page.scalarOf record).toJson
      if page.forward then ⟨.forward, some key, some value, page.offset⟩
      else ⟨.backward, some key, some value, page.offset⟩
    | _, _ => ⟨.last, some key, none, 0⟩

/-- Makes a token of a kind at a value of an offset that was asked for. -/
def tokenAt (page : WordPage C R) (kind : PageKind) (value : Scalar)
    (offset : WordAnswer C R (Except (PageError E) Word)) :
    WordAnswer C R (Except (PageError E) (Option WordToken)) :=
  ⟨offset.result.map fun n => some ⟨kind, some page.paginator.key.key, some value.toJson, n⟩,
    offset.page, offset.events⟩

variable [Store C R E] [WordStore C R E]

/-- How many records have a scalar. The page asks the store once for each scalar. -/
def countDuplicates? (page : WordPage C R) (value : Scalar) :
    Option (WordAnswer C R (Except (PageError E) Word)) :=
  match page.duplicates.find? fun entry => entry.1.same value with
  | some (_, count) => some ⟨.ok count, page, [.duplicates value count.toNat true]⟩
  | none => do
    match ← page.paginator.countDuplicates? value with
    | .error e => return ⟨.error e, page, []⟩
    | .ok count =>
      return ⟨.ok count, { page with duplicates := page.duplicates ++ [(value, count)] },
        [.duplicates value count.toNat false]⟩

/-- How many records of a scalar lie beyond a boundary, of which `consumed` and one more lie on this
side. -/
def remainingDuplicates? (page : WordPage C R) (value : Scalar) (consumed : Word) :
    Option (WordAnswer C R (Except (PageError E) Word)) := do
  let counted ← page.countDuplicates? value
  match counted.result with
  | .error _ => return counted
  | .ok total =>
    match Word.sub? total (Word.addCapped consumed 1) with
    | some rest => return { counted with result := .ok rest }
    | none =>
      let warning :=
        Event.shortRun page.paginator.key.key value total.toNat consumed.toNat
      return { counted with result := .ok 0, events := counted.events ++ [warning] }

def offsetOfNext? (page : WordPage C R) (next : R) :
    Option (WordAnswer C R (Except (PageError E) Word)) := do
  let value := page.scalarOf next
  let run ← page.runLength? value page.records.reverse
  if run = page.paginator.perPage then
    if page.forward then some ⟨.ok (Word.addCapped run page.offset), page, []⟩
    else page.remainingDuplicates? value page.offset
  else some ⟨.ok run, page, []⟩

def offsetOfPrevious? (page : WordPage C R) (first : R) (rest : List R) :
    Option (WordAnswer C R (Except (PageError E) Word)) := do
  let value := page.scalarOf first
  let run ← page.runLength? value rest
  let whole ← Word.sub? page.paginator.perPage 1
  let goesOn := page.nextItem.any fun next => (page.scalarOf next).same value
  if run = whole then
    if page.forward then page.remainingDuplicates? value page.offset
    else if goesOn then
      some ⟨.ok (Word.addCapped (Word.addCapped run page.offset) 1), page, []⟩
    else some ⟨.ok run, page, []⟩
  else some ⟨.ok run, page, []⟩

def nextToken? (page : WordPage C R) :
    Option (WordAnswer C R (Except (PageError E) (Option WordToken))) :=
  match page.nextItem with
  | none => some ⟨.ok none, page, []⟩
  | some next => (page.offsetOfNext? next).map (page.tokenAt .forward (page.scalarOf next))

def previousToken? (page : WordPage C R) :
    Option (WordAnswer C R (Except (PageError E) (Option WordToken))) :=
  match page.isFirst, page.records with
  | false, first :: rest =>
    (page.offsetOfPrevious? first rest).map (page.tokenAt .backward (page.scalarOf first))
  | _, _ => some ⟨.ok none, page, []⟩

def answer? (page : WordPage C R) :
    Link → Option (WordAnswer C R (Except (PageError E) (Option WordToken)))
  | .again => some ⟨.ok (some page.info), page, []⟩
  | .next => page.nextToken?
  | .previous => page.previousToken?

def answers? (page : WordPage C R) :
    List Link → Option (WordAnswer C R (List (Except (PageError E) (Option WordToken))))
  | [] => some ⟨[], page, []⟩
  | link :: links => do
    let first ← page.answer? link
    let rest ← first.page.answers? links
    return ⟨first.result :: rest.result, rest.page, first.events ++ rest.events⟩

/-! ## The answers are the same -/

variable {ceiling : Ceiling} {page : WordPage C R} {value : Scalar}

omit [Store C R E] [WordStore C R E] in
theorem info_exact (page : WordPage C R) (ceiling : Ceiling) :
    page.info.exact = (page.under ceiling).info := by
  obtain ⟨p, records, forward, offset, nextItem, isFirst, duplicates⟩ := page
  cases isFirst <;> cases forward <;> cases records <;> cases nextItem <;> rfl

omit [Store C R E] [WordStore C R E] in
theorem exists_runLength?_eq (page : WordPage C R) (ceiling : Ceiling) (value : Scalar)
    {records : List R} (h : records.length ≤ maxLength) :
    ∃ run, page.runLength? value records = some run ∧
      run.toNat = (page.under ceiling).runLength value records ∧ run.toNat ≤ records.length := by
  have hzero : (0 : Word).toNat + records.length ≤ maxLength := by
    rwa [UInt64.toNat_zero, Nat.zero_add]
  obtain ⟨run, hrun, hrunNat⟩ :=
    Word.exists_countWhile?_eq (fun r => (page.scalarOf r).same value) hzero
  rw [UInt64.toNat_zero, Nat.zero_add] at hrunNat
  refine ⟨run, hrun, hrunNat, ?_⟩
  rw [hrunNat]
  exact (List.takeWhile_sublist _).length_le

omit [Record R] in
theorem countDuplicates?_eq (ceiling : Ceiling)
    (hsize : WordStore.size page.paginator.store ≤ maxLength) (value : Scalar) :
    (page.countDuplicates? value).map (WordAnswer.under (Except.map UInt64.toNat) ceiling) =
      some ((page.under ceiling).countDuplicates value) := by
  have hfind : ((page.under ceiling).duplicates.find? fun entry => entry.1.same value) =
      (page.duplicates.find? fun entry => entry.1.same value).map
        fun entry => (entry.1, entry.2.toNat) := List.find?_map
  rw [countDuplicates?, Page.countDuplicates, hfind]
  cases page.duplicates.find? fun entry => entry.1.same value with
  | some entry => rfl
  | none =>
    obtain ⟨count, hcount, hexact⟩ := Option.map_eq_some_iff.1
      (WordPaginator.countDuplicates?_eq ceiling hsize value)
    have hcounted : (page.under ceiling).paginator.countDuplicates value =
        count.map UInt64.toNat := hexact.symm
    simp only [Option.map_none, hcount, hcounted, Option.bind_eq_bind, Option.bind_some]
    cases count with
    | error e => rfl
    | ok n =>
      simp only [Except.map, Option.pure_def, Option.map_some, WordAnswer.under, under,
        List.map_append]
      rfl

omit [Record R] in
theorem remainingDuplicates?_eq (hceiling : ceiling.IsHigh)
    (hsize : WordStore.size page.paginator.store ≤ maxLength) (value : Scalar) {consumed : Word}
    (hconsumed : consumed.toNat ≤ maxLength) :
    (page.remainingDuplicates? value consumed).map
        (WordAnswer.under (Except.map UInt64.toNat) ceiling) =
      some ((page.under ceiling).remainingDuplicates value consumed.toNat) := by
  obtain ⟨⟨result, after, events⟩, hcounted, hexact⟩ :=
    Option.map_eq_some_iff.1 (countDuplicates?_eq ceiling hsize value)
  rw [remainingDuplicates?, Page.remainingDuplicates, ← hexact, hcounted]
  cases result with
  | error e => rfl
  | ok total =>
    have hsum : consumed.toNat + (1 : Word).toNat ≤ 2 * maxLength := by
      rw [UInt64.toNat_one]
      rw [maxLength] at hconsumed ⊢
      omega
    have htaken : (page.under ceiling).paginator.ceiling.add consumed.toNat 1 =
        (Word.addCapped consumed 1).toNat := hceiling.add_eq_addCapped hsum
    by_cases hle : (Word.addCapped consumed 1).toNat ≤ total.toNat
    · obtain ⟨rest, hrest, hrestNat⟩ := Word.exists_sub?_eq hle
      simp only [WordAnswer.under, Except.map, Option.bind_eq_bind, Option.bind_some, hrest, htaken,
        if_pos hle, ← hrestNat]
      rfl
    · have hnone := Word.sub?_eq_none (not_le.1 hle)
      simp only [WordAnswer.under, Except.map, Option.bind_eq_bind, Option.bind_some, hnone, htaken,
        if_neg hle]
      rfl

theorem offsetOfNext?_eq (hceiling : ceiling.IsHigh) (hfits : (page.under ceiling).Fits)
    (next : R) :
    (page.offsetOfNext? next).map (WordAnswer.under (Except.map UInt64.toNat) ceiling) =
      some ((page.under ceiling).offsetOfNext next) := by
  have hlength : page.records.reverse.length ≤ maxLength := by
    rw [List.length_reverse]
    exact hfits.length_le
  have hoffset : page.offset.toNat ≤ maxLength := hfits.offset_le
  obtain ⟨run, hrun, hrunNat, hrunLe⟩ :=
    page.exists_runLength?_eq ceiling (page.scalarOf next) hlength
  have hwhole : run = page.paginator.perPage ↔
      run.toNat = (page.under ceiling).paginator.perPage := UInt64.toNat_inj.symm
  have hsum : run.toNat + page.offset.toNat ≤ 2 * maxLength := by omega
  have hexact : (page.under ceiling).paginator.ceiling.add run.toNat (page.under ceiling).offset =
      (Word.addCapped run page.offset).toNat := hceiling.add_eq_addCapped hsum
  have hrun' : (page.under ceiling).runLength ((page.under ceiling).scalarOf next)
      (page.under ceiling).records.reverse = run.toNat := hrunNat.symm
  simp only [offsetOfNext?, Page.offsetOfNext, hrun, hrun', Option.bind_eq_bind, Option.bind_some]
  by_cases h : run = page.paginator.perPage
  · rw [if_pos h, if_pos (hwhole.1 h)]
    change _ = some (if page.forward then _ else _)
    cases page.forward with
    | true =>
      simp only [if_true, hexact]
      rfl
    | false => exact remainingDuplicates?_eq hceiling hfits.size_le _ hoffset
  · rw [if_neg h, if_neg (mt hwhole.2 h)]
    rfl

theorem offsetOfPrevious?_eq (hceiling : ceiling.IsHigh) (hfits : (page.under ceiling).Fits)
    {first : R} {rest : List R} (hrecords : page.records = first :: rest) :
    (page.offsetOfPrevious? first rest).map (WordAnswer.under (Except.map UInt64.toNat) ceiling) =
      some ((page.under ceiling).offsetOfPrevious first rest) := by
  have hlength : rest.length + 1 ≤ maxLength := by
    rw [← List.length_cons, ← hrecords]
    exact hfits.length_le
  have hoffset : page.offset.toNat ≤ maxLength := hfits.offset_le
  obtain ⟨run, hrun, hrunNat, hrunLe⟩ :=
    page.exists_runLength?_eq ceiling (page.scalarOf first) (Nat.le_of_succ_le hlength)
  obtain ⟨whole, hwhole, hwholeNat⟩ :=
    Word.exists_sub?_eq (UInt64.lt_iff_toNat_lt.1 page.paginator.one_lt_perPage).le
  rw [UInt64.toNat_one] at hwholeNat
  have hfull : run = whole ↔ run.toNat = (page.under ceiling).paginator.perPage - 1 := by
    rw [← UInt64.toNat_inj, hwholeNat]
    rfl
  have hexact : (page.under ceiling).paginator.ceiling.add
      ((page.under ceiling).paginator.ceiling.add run.toNat (page.under ceiling).offset) 1 =
        (Word.addCapped (Word.addCapped run page.offset) 1).toNat := by
    have hsum : run.toNat + page.offset.toNat ≤ 2 * maxLength := by omega
    have hfirst := hceiling.add_eq_addCapped hsum
    rw [hceiling.add_eq hsum] at hfirst
    have hnext : (Word.addCapped run page.offset).toNat + (1 : Word).toNat ≤ 2 * maxLength := by
      rw [UInt64.toNat_one]
      omega
    rw [← hceiling.add_eq_addCapped hnext, ← hceiling.add_eq_addCapped hsum]
    rfl
  have hrun' : (page.under ceiling).runLength ((page.under ceiling).scalarOf first) rest =
      run.toNat := hrunNat.symm
  simp only [offsetOfPrevious?, Page.offsetOfPrevious, hrun, hrun', hwhole, Option.bind_eq_bind,
    Option.bind_some]
  by_cases h : run = whole
  · rw [if_pos h, if_pos (hfull.1 h)]
    change _ = some (if page.forward then _
      else if page.nextItem.any fun next => (page.scalarOf next).same (page.scalarOf first) then _
      else _)
    cases page.forward with
    | true => exact remainingDuplicates?_eq hceiling hfits.size_le _ hoffset
    | false =>
      simp only [Bool.false_eq_true, if_false, hexact]
      cases page.nextItem.any fun next => (page.scalarOf next).same (page.scalarOf first) <;> rfl
  · rw [if_neg h, if_neg (mt hfull.2 h)]
    rfl

omit [Record R] [Store C R E] [WordStore C R E] in
theorem under_tokenAt (page : WordPage C R) (kind : PageKind) (value : Scalar)
    (offset : WordAnswer C R (Except (PageError E) Word)) (ceiling : Ceiling) :
    (page.tokenAt kind value offset).under (Except.map (Option.map WordToken.exact)) ceiling =
      Page.tokenAt (fun n => ⟨kind, some page.paginator.key.key, some value.toJson, n⟩)
        (offset.under (Except.map UInt64.toNat) ceiling) := by
  obtain ⟨result, after, events⟩ := offset
  cases result <;> rfl

theorem nextToken?_eq (hceiling : ceiling.IsHigh) (hfits : (page.under ceiling).Fits) :
    page.nextToken?.map (WordAnswer.under (Except.map (Option.map WordToken.exact)) ceiling) =
      some (page.under ceiling).nextToken := by
  rw [nextToken?, Page.nextToken_eq]
  change _ = some (match page.nextItem with
    | none => _
    | some next => _)
  cases page.nextItem with
  | none => rfl
  | some next =>
    obtain ⟨offset, hoffset, hexact⟩ :=
      Option.map_eq_some_iff.1 (offsetOfNext?_eq hceiling hfits next)
    simp only [hoffset, Option.map_some, under_tokenAt, hexact]
    rfl

theorem previousToken?_eq (hceiling : ceiling.IsHigh) (hfits : (page.under ceiling).Fits) :
    page.previousToken?.map (WordAnswer.under (Except.map (Option.map WordToken.exact)) ceiling) =
      some (page.under ceiling).previousToken := by
  rw [previousToken?, Page.previousToken_eq]
  change _ = some (match page.isFirst, page.records with
    | false, first :: rest => _
    | _, _ => _)
  cases page.isFirst with
  | true => rfl
  | false =>
    cases hrecords : page.records with
    | nil => rfl
    | cons first rest =>
      obtain ⟨offset, hoffset, hexact⟩ :=
        Option.map_eq_some_iff.1 (offsetOfPrevious?_eq hceiling hfits hrecords)
      simp only [hoffset, Option.map_some, under_tokenAt, hexact]
      rfl

theorem answer?_eq (hceiling : ceiling.IsHigh) (hfits : (page.under ceiling).Fits) (link : Link) :
    (page.answer? link).map (WordAnswer.under (Except.map (Option.map WordToken.exact)) ceiling) =
      some ((page.under ceiling).answer link) := by
  cases link with
  | again =>
    rw [answer?, Page.answer, ← info_exact]
    rfl
  | next => exact nextToken?_eq hceiling hfits
  | previous => exact previousToken?_eq hceiling hfits

/-- A page that fits still fits after it was asked, so all of its answers are those with numbers
that have no bound. -/
theorem answers?_eq (hceiling : ceiling.IsHigh) (links : List Link)
    (hfits : (page.under ceiling).Fits) :
    (page.answers? links).map
        (WordAnswer.under (List.map (Except.map (Option.map WordToken.exact))) ceiling) =
      some ((page.under ceiling).answers links) := by
  induction links generalizing page with
  | nil => rfl
  | cons link links ih =>
    obtain ⟨first, hfirst, hfirstExact⟩ :=
      Option.map_eq_some_iff.1 (answer?_eq hceiling hfits link)
    have hpage : first.page.under ceiling = ((page.under ceiling).answer link).page :=
      congrArg Answer.page hfirstExact
    have hfits' : (first.page.under ceiling).Fits := hpage ▸ hfits.answer link
    obtain ⟨rest, hrest, hrestExact⟩ := Option.map_eq_some_iff.1 (ih hfits')
    rw [hpage] at hrestExact
    simp only [answers?, hfirst, hrest, Option.bind_eq_bind, Option.bind_some, Page.answers,
      ← hrestExact]
    rw [← hfirstExact]
    rfl

end WordPage

structure WordVisit (C R E : Type) where
  page : WordPage C R
  answers : List (Except (PageError E) (Option WordToken))

/-- The visit with its numbers, to a page that counts under a ceiling. -/
def WordVisit.under {C R E : Type} (visit : WordVisit C R E) (ceiling : Ceiling) : Visit C R E :=
  ⟨visit.page.under ceiling, visit.answers.map (·.map (·.map WordToken.exact))⟩

def WordPaginator.visit? {C R E : Type} [Record R] [Store C R E] [WordStore C R E]
    (p : WordPaginator C) (token : Option WordToken) (links : List Link) :
    Option (Logged (Except (PageError E) (WordVisit C R E))) := do
  let found : Logged (Except (PageError E) (WordPage C R)) ← p.page? token
  match found.result with
  | .error e => return ⟨.error e, found.events⟩
  | .ok page =>
    let answered : WordAnswer C R (List (Except (PageError E) (Option WordToken))) ←
      page.answers? links
    return ⟨.ok ⟨answered.page, answered.result⟩, found.events ++ answered.events⟩

namespace WordPaginator

variable {C R E : Type} [Record R] [Store C R E] [WordStore C R E] {ceiling : Ceiling}

/-- Under every high ceiling, a visit with words is the visit with numbers. -/
theorem visit?_eq (p : WordPaginator C) (hceiling : ceiling.IsHigh)
    (hsize : WordStore.size p.store ≤ maxLength) (token : Option WordToken) (links : List Link) :
    (p.visit? token links).map (Logged.map (Except.map (·.under ceiling))) =
      some ((p.under ceiling).visit (token.map WordToken.exact) links) := by
  obtain ⟨⟨result, events⟩, hfound, hexact⟩ :=
    Option.map_eq_some_iff.1 (page?_eq (p := p) hceiling hsize token)
  rw [visit?, Paginator.visit, ← hexact, hfound]
  cases result with
  | error e => rfl
  | ok page =>
    have hfits : (page.under ceiling).Fits :=
      Paginator.fits_page hceiling hsize (congrArg Logged.result hexact.symm)
    obtain ⟨answered, hanswered, hanswers⟩ :=
      Option.map_eq_some_iff.1 (WordPage.answers?_eq hceiling links hfits)
    simp only [Option.bind_eq_bind, Option.bind_some, hanswered, Logged.map, Except.map,
      ← hanswers]
    rfl

/-- Words are enough. Over a store no longer than a list can be, with any page size, count and
token, no operation on words fails on the way to a page and to any answers of it, and what is found
is what counters that stop at the largest word give, and what natural numbers give. -/
theorem exists_visit?_eq (p : WordPaginator C) (hsize : WordStore.size p.store ≤ maxLength)
    (token : Option WordToken) (links : List Link) :
    ∃ found, p.visit? token links = some found ∧
      (p.under wordCeiling).visit (token.map WordToken.exact) links =
        found.map (Except.map (·.under wordCeiling)) ∧
      (p.under none).visit (token.map WordToken.exact) links =
        found.map (Except.map (·.under none)) := by
  obtain ⟨found, hfound, hword⟩ :=
    Option.map_eq_some_iff.1 (p.visit?_eq Ceiling.isHigh_wordCeiling hsize token links)
  have hnumber := p.visit?_eq Ceiling.isHigh_none hsize token links
  rw [hfound, Option.map_some, Option.some.injEq] at hnumber
  exact ⟨found, hfound, hword.symm, hnumber.symm⟩

end WordPaginator

/-- Three rows on pages for almost as many as a word can say. -/
def hugePages : WordPaginator (Table Row) where
  store := ⟨ranked [.int 1, .int 2, .int 2]⟩
  key := rankKey false
  perPage := Word.top - 1
  count := Word.top
  one_lt_perPage := by decide

/-- The token of the page after so many rows of the second rank. -/
def hugeToken (offset : Word) : WordToken :=
  ⟨.forward, some "rank", some (Scalar.int 2).toJson, offset⟩

theorem exists_visit?_eq_hugePages :
    WordStore.size hugePages.store ≤ maxLength ∧
      ∃ found, hugePages.visit? (some (hugeToken 1)) [.previous, .next, .again] = some found ∧
        (hugePages.under wordCeiling).visit (some (hugeToken 1).exact) [.previous, .next, .again] =
          found.map (Except.map (·.under wordCeiling)) ∧
        (hugePages.under none).visit (some (hugeToken 1).exact) [.previous, .next, .again] =
          found.map (Except.map (·.under none)) :=
  ⟨by decide, hugePages.exists_visit?_eq (by decide) (some (hugeToken 1)) _⟩

/-- The last row is found, and nothing beyond it as far as words go. -/
example : [0, 1, 2, Word.top].map (fun offset =>
    (hugePages.page? (some (hugeToken offset))).map fun found =>
      found.result.toOption.map fun page => page.records.length) =
    [some (some 2), some (some 1), some none, some none] := by
  decide +kernel

end Keyset
