import Keyset.Proofs.Camps
import Keyset.Proofs.WordTokens

/-!
# Counts that a page remembers

A page asks its store to count the records of one scalar at most: a page that is counted from its
first record on that of this record, to find the page before, and a page that is counted from its
end that of the record after it, to find the page after. So it remembers one count or none, and
whatever it was asked before, it answers as if it remembered nothing. This takes no law of the store.
-/
namespace Keyset

theorem Scalar.same_self_of_same {a b : Scalar} (h : a.same b = true) : b.same b = true := by
  apply (same_of_kind? rfl).2
  refine compare?_self (isSome_compare?_self ?_)
  rintro rfl
  cases a <;> simp [same, Binary64.same] at h

/-- The count that a store has given, if that is what the event reports. -/
def Event.learned? : Event → Option (Scalar × Nat)
  | .duplicates value count false => some (value, count)
  | _ => none

def Paginator.over {C D : Type} (p : Paginator C) (store : D) : Paginator D :=
  { p with store := store }

/-! ## Found pages -/

namespace Paginator

variable {C R E : Type} [Store C R E] {p : Paginator C} {page : Page C R}

/-- A page that was just found belongs to its paginator and remembers nothing. -/
structure Finds (p : Paginator C) (page : Page C R) : Prop where
  paginator_eq : page.paginator = p
  duplicates_eq : page.duplicates = []

theorem finds_firstPage (h : p.firstPage.result = .ok page) : p.Finds page := by
  rw [firstPage] at h
  split at h
  · cases h
  · cases h
    exact ⟨rfl, rfl⟩

theorem finds_fetch {token : Token} (h : p.fetch token = .ok page) : p.Finds page := by
  obtain ⟨_, _, h⟩ := exists_of_bind_eq_ok h
  split at h
  · obtain ⟨_, _, h⟩ := exists_of_bind_eq_ok h
    obtain ⟨_, _, h⟩ := exists_of_bind_eq_ok h
    obtain ⟨_, _, h⟩ := exists_of_bind_eq_ok h
    dsimp only at h
    split at h
    · cases h
    · cases h
      exact ⟨rfl, rfl⟩
  · obtain ⟨_, _, h⟩ := exists_of_bind_eq_ok h
    obtain ⟨_, _, h⟩ := exists_of_bind_eq_ok h
    obtain ⟨_, _, h⟩ := exists_of_bind_eq_ok h
    dsimp only at h
    split at h
    · cases h
    · cases h
      exact ⟨rfl, rfl⟩
  · obtain ⟨_, _, h⟩ := exists_of_bind_eq_ok h
    cases h
    exact ⟨rfl, rfl⟩

theorem finds_page {token : Option Token} (h : (p.page token).result = .ok page) :
    p.Finds page := by
  obtain hfirst | ⟨t, _, hfetch⟩ := firstPage_or_fetch_of_page_eq_ok h
  · exact finds_firstPage hfirst
  · exact finds_fetch hfetch

end Paginator

/-! ## Asking for one count -/

/-- How a page finds an answer: by itself, or from the count of the records of a scalar. -/
inductive Plan where
  | known (token : Option Token)
  | counting (make : Nat → Token) (value : Scalar)

def Plan.value? : Plan → Option Scalar
  | .known _ => none
  | .counting _ value => some value

namespace Page

variable {C D R E : Type}

def recalling (page : Page C R) (store : D) (duplicates : List (Scalar × Nat)) : Page D R :=
  { page with paginator := page.paginator.over store, duplicates := duplicates }

variable [Record R]

/-- The only scalar that a page ever needs a count of. -/
def counted? (page : Page C R) : Option Scalar :=
  (if page.forward then page.records.head? else page.nextItem).map page.scalarOf

/-- The answer of a page by a plan. -/
def carryOut [Store C R E] (page : Page C R) :
    Plan → Answer C R (Except (PageError E) (Option Token))
  | .known token => ⟨.ok token, page, []⟩
  | .counting make value => tokenAt make (page.remainingDuplicates value page.offset)

/-- A page answers by a plan, over any store and whatever it remembers. The plan needs no count but
that of one scalar, which is not NaN. -/
structure Follows (page : Page C R) (link : Link) (plan : Plan) : Prop where
  counts : ∀ value ∈ plan.value?, page.counted? = some value ∧ value.same value = true
  answer_eq {D F : Type} [Store D R F] (store : D) (duplicates : List (Scalar × Nat)) :
    (page.recalling store duplicates).answer link = (page.recalling store duplicates).carryOut plan

variable {page : Page C R} {link : Link} {value : Scalar}

theorem exists_follows_of_known (make : Nat → Token) (n : Nat)
    (h : ∀ {D F : Type} [Store D R F] (store : D) (duplicates : List (Scalar × Nat)),
      (page.recalling store duplicates).answer link =
        tokenAt make ⟨.ok n, page.recalling store duplicates, []⟩) :
    ∃ plan, page.Follows link plan :=
  ⟨.known (some (make n)), by simp [Plan.value?], h⟩

theorem same_self_of_runLength {records : List R} (h : 0 < page.runLength value records) :
    value.same value = true := by
  obtain ⟨r, hr⟩ := List.exists_mem_of_length_pos h
  have hsame := List.mem_takeWhile_imp hr
  exact Scalar.same_self_of_same hsame

theorem exists_follows_of_counting (make : Nat → Token) {records : List R}
    (hcounted : page.counted? = some value) (hrun : 0 < page.runLength value records)
    (h : ∀ {D F : Type} [Store D R F] (store : D) (duplicates : List (Scalar × Nat)),
      (page.recalling store duplicates).answer link =
        tokenAt make ((page.recalling store duplicates).remainingDuplicates value page.offset)) :
    ∃ plan, page.Follows link plan := by
  refine ⟨.counting make value, ?_, h⟩
  simp only [Plan.value?, Option.mem_def, Option.some.injEq, forall_eq']
  exact ⟨hcounted, same_self_of_runLength hrun⟩

theorem exists_follows_next (page : Page C R) : ∃ plan, page.Follows .next plan := by
  cases hnext : page.nextItem with
  | none =>
    refine ⟨.known none, by simp [Plan.value?], ?_⟩
    intro D F _ store duplicates
    simp only [answer, nextToken_eq, recalling, hnext, carryOut]
  | some next =>
    have hanswer {D F : Type} [Store D R F] (store : D) (duplicates : List (Scalar × Nat)) :
        (page.recalling store duplicates).answer .next =
          tokenAt (.forward page.paginator.key.key (page.scalarOf next).toJson)
            ((page.recalling store duplicates).offsetOfNext next) := by
      simp only [answer, nextToken_eq, recalling, hnext]
      rfl
    let run := page.runLength (page.scalarOf next) page.records.reverse
    by_cases hrun : run = page.paginator.perPage
    · by_cases hforward : page.forward = true
      · apply exists_follows_of_known _ (page.paginator.ceiling.add run page.offset)
        intro D F _ store duplicates
        exact (hanswer store duplicates).trans
          (congrArg _ ((if_pos hrun).trans (if_pos hforward)))
      · have hcounted : page.counted? = some (page.scalarOf next) := by
          simp [counted?, hforward, hnext]
        have hsome : 0 < run := by
          rw [hrun]
          exact Nat.zero_lt_of_lt page.paginator.one_lt_perPage
        apply exists_follows_of_counting _ hcounted hsome
        intro D F _ store duplicates
        exact (hanswer store duplicates).trans
          (congrArg _ ((if_pos hrun).trans (if_neg hforward)))
    · apply exists_follows_of_known _ run
      intro D F _ store duplicates
      exact (hanswer store duplicates).trans (congrArg _ (if_neg hrun))

theorem exists_follows_previous (page : Page C R) : ∃ plan, page.Follows .previous plan := by
  by_cases hshows : page.isFirst = true ∨ page.records = []
  · refine ⟨.known none, by simp [Plan.value?], ?_⟩
    intro D F _ store duplicates
    obtain hfirst | hrecords := hshows
    · simp only [answer, previousToken_eq, recalling, hfirst, carryOut]
    · simp only [answer, previousToken_eq, recalling, hrecords, carryOut]
      cases page.isFirst <;> rfl
  · rw [not_or, Bool.not_eq_true] at hshows
    obtain ⟨hfirst, hrecords⟩ := hshows
    obtain ⟨first, rest, hrecords⟩ := List.exists_cons_of_ne_nil hrecords
    have hanswer {D F : Type} [Store D R F] (store : D) (duplicates : List (Scalar × Nat)) :
        (page.recalling store duplicates).answer .previous =
          tokenAt (.backward page.paginator.key.key (page.scalarOf first).toJson)
            ((page.recalling store duplicates).offsetOfPrevious first rest) := by
      simp only [answer, previousToken_eq, recalling, hfirst, hrecords]
      rfl
    let run := page.runLength (page.scalarOf first) rest
    by_cases hrun : run = page.paginator.perPage - 1
    · by_cases hforward : page.forward = true
      · have hcounted : page.counted? = some (page.scalarOf first) := by
          simp [counted?, hforward, hrecords]
        have hsome : 0 < run := by
          rw [hrun]
          exact Nat.sub_pos_of_lt page.paginator.one_lt_perPage
        apply exists_follows_of_counting _ hcounted hsome
        intro D F _ store duplicates
        exact (hanswer store duplicates).trans
          (congrArg _ ((if_pos hrun).trans (if_pos hforward)))
      · let ceiling := page.paginator.ceiling
        by_cases hgoesOn : (page.nextItem.any fun next =>
            (page.scalarOf next).same (page.scalarOf first)) = true
        · apply exists_follows_of_known _ (ceiling.add (ceiling.add run page.offset) 1)
          intro D F _ store duplicates
          exact (hanswer store duplicates).trans
            (congrArg _ ((if_pos hrun).trans ((if_neg hforward).trans (if_pos hgoesOn))))
        · apply exists_follows_of_known _ run
          intro D F _ store duplicates
          exact (hanswer store duplicates).trans
            (congrArg _ ((if_pos hrun).trans ((if_neg hforward).trans (if_neg hgoesOn))))
    · apply exists_follows_of_known _ run
      intro D F _ store duplicates
      exact (hanswer store duplicates).trans (congrArg _ (if_neg hrun))

theorem exists_follows (page : Page C R) (link : Link) : ∃ plan, page.Follows link plan := by
  cases link with
  | again => exact ⟨.known (some page.info), by simp [Plan.value?], fun _ _ => rfl⟩
  | next => exact page.exists_follows_next
  | previous => exact page.exists_follows_previous

/-! ## Counting once -/

/-- The report that fewer records were counted than offsets speak of. -/
def shortRuns (page : Page C R) (value : Scalar) (total consumed : Nat) : List Event :=
  if page.paginator.ceiling.add consumed 1 ≤ total then []
  else [.shortRun page.paginator.key.key value total consumed]

omit [Record R] in
theorem remainingDuplicates_of_counted [Store C R E] {n consumed : Nat} {after : Page C R}
    {events : List Event} (h : page.countDuplicates value = ⟨.ok n, after, events⟩) :
    page.remainingDuplicates value consumed =
      ⟨.ok (n - page.paginator.ceiling.add consumed 1), after,
        events ++ page.shortRuns value n consumed⟩ := by
  simp only [remainingDuplicates, h, shortRuns]
  split
  · rw [List.append_nil]
  · next hshort => rw [Nat.sub_eq_zero_of_le (Nat.le_of_not_le hshort)]

omit [Record R] in
theorem filterMap_learned?_shortRuns (page : Page C R) (value : Scalar) (total consumed : Nat) :
    (page.shortRuns value total consumed).filterMap Event.learned? = [] := by
  rw [shortRuns]
  split <;> rfl

/-! ## Answers without a store -/

def recite (page : Page C R) (n : Nat) : Plan → Option Token × List Event
  | .known token => (token, [])
  | .counting make value =>
    (some (make (n - page.paginator.ceiling.add page.offset 1)),
      [.duplicates value n true] ++ page.shortRuns value n page.offset)

omit [Record R] in
theorem filterMap_learned?_recite (page : Page C R) (n : Nat) (plan : Plan) :
    (page.recite n plan).2.filterMap Event.learned? = [] := by
  cases plan with
  | known token => rfl
  | counting make value => exact page.filterMap_learned?_shortRuns value n page.offset

omit [Record R] in
theorem carryOut_of_remembered [Store C R E] {plan : Plan} {n : Nat}
    (hone : page.duplicates = [(value, n)]) (hself : value.same value = true)
    (hplan : ∀ v ∈ plan.value?, v = value) :
    page.carryOut plan = ⟨.ok (page.recite n plan).1, page, (page.recite n plan).2⟩ := by
  cases plan with
  | known token => rfl
  | counting make v =>
    obtain rfl := hplan v rfl
    have hcounted : page.countDuplicates v = ⟨.ok n, page, [.duplicates v n true]⟩ := by
      simp only [countDuplicates, hone, List.find?_cons, hself]
    exact congrArg (tokenAt make) (remainingDuplicates_of_counted hcounted)

/-- A page that needs no store: over any, of whatever type, it gives the same answers and reports,
none of them fails, and no count is learned. -/
def NeedsNoStore (page : Page C R) : Prop :=
  ∀ links : List Link, ∃ (tokens : List (Option Token)) (events : List Event),
    events.filterMap Event.learned? = [] ∧
    ∀ {D F : Type} [Store D R F] (store : D),
      (page.recalling store page.duplicates).answers links =
        ⟨tokens.map .ok, page.recalling store page.duplicates, events⟩

/-- With the count of its scalar, a page finds all answers without its store. -/
theorem needsNoStore_of_remembered {n : Nat} (hcounted : page.counted? = some value)
    (hself : value.same value = true) (hone : page.duplicates = [(value, n)]) :
    page.NeedsNoStore := by
  intro links
  induction links with
  | nil => exact ⟨[], [], rfl, fun _ => rfl⟩
  | cons link links ih =>
    obtain ⟨tokens, events, hlearned, hrest⟩ := ih
    obtain ⟨plan, hcounts, hanswer⟩ := page.exists_follows link
    have hplan : ∀ v ∈ plan.value?, v = value := by
      intro v hv
      exact Option.some.inj ((hcounts v hv).1.symm.trans hcounted)
    refine ⟨(page.recite n plan).1 :: tokens, (page.recite n plan).2 ++ events, ?_, ?_⟩
    · rw [List.filterMap_append, filterMap_learned?_recite, hlearned, List.append_nil]
    · intro D F _ store
      have hfirst : (page.recalling store page.duplicates).answer link =
          ⟨.ok (page.recite n plan).1, page.recalling store page.duplicates,
            (page.recite n plan).2⟩ :=
        (hanswer store _).trans (carryOut_of_remembered hone hself hplan)
      simp only [answers, hfirst, hrest, List.map_cons]

/-! ## Answers with a store -/

variable [Store C R E] {known : List (Scalar × Nat)}

/-- What a page may remember: nothing, or how many records there are of the scalar that it needs a
count of. -/
inductive Recalls (page : Page C R) : List (Scalar × Nat) → Prop
  | nothing : Recalls page []
  | count {value : Scalar} {n : Nat} (hcounted : page.counted? = some value)
    (hself : value.same value = true) (hcount : page.paginator.countDuplicates value = .ok n) :
    Recalls page [(value, n)]

omit [Record R] in
theorem carryOut_of_error {e : PageError E} (make : Nat → Token) (hnone : page.duplicates = [])
    (hcount : page.paginator.countDuplicates value = .error e) :
    page.carryOut (.counting make value) = ⟨.error e, page, []⟩ := by
  simp only [carryOut, tokenAt, remainingDuplicates, countDuplicates, hnone, List.find?_nil, hcount]
  rfl

omit [Record R] in
theorem carryOut_of_ok {n : Nat} (make : Nat → Token) (hnone : page.duplicates = [])
    (hcount : page.paginator.countDuplicates value = .ok n) :
    page.carryOut (.counting make value) =
      ⟨.ok (page.recite n (.counting make value)).1, { page with duplicates := [(value, n)] },
        [.duplicates value n false] ++ page.shortRuns value n page.offset⟩ := by
  have hcounted : page.countDuplicates value =
      ⟨.ok n, { page with duplicates := [(value, n)] }, [.duplicates value n false]⟩ := by
    simp only [countDuplicates, hnone, List.find?_nil, hcount, List.nil_append]
  exact congrArg (tokenAt make) (remainingDuplicates_of_counted hcounted)

/-- One answer: it is that of a page that remembers nothing, it adds to what the page remembers what
it has learned, and nothing if it fails. -/
theorem Recalls.answer (h : page.Recalls known) (link : Link) : ∃ events,
    page.Recalls (known ++ events.filterMap Event.learned?) ∧
    { page with duplicates := known }.answer link =
      ⟨({ page with duplicates := [] }.answer link).result,
        { page with duplicates := known ++ events.filterMap Event.learned? }, events⟩ ∧
    ∀ e, ({ page with duplicates := [] }.answer link).result = .error e → known = [] ∧ events = [] := by
  obtain ⟨plan, hcounts, hanswer⟩ := page.exists_follows link
  have hanswer (duplicates : List (Scalar × Nat)) :
      { page with duplicates := duplicates }.answer link =
        { page with duplicates := duplicates }.carryOut plan := hanswer page.paginator.store duplicates
  rw [hanswer, hanswer]
  cases plan with
  | known token =>
    refine ⟨[], ?_, ?_, ?_⟩
    · simpa using h
    · simp [carryOut]
    · simp [carryOut]
  | counting make v =>
    obtain ⟨hcounted, hself⟩ := hcounts v rfl
    cases hcount : page.paginator.countDuplicates v with
    | error e =>
      have hfails : { page with duplicates := [] }.carryOut (.counting make v) =
          ⟨.error e, { page with duplicates := [] }, []⟩ := carryOut_of_error make rfl hcount
      cases h with
      | nothing => exact ⟨[], .nothing, by rw [hfails]; rfl, fun _ _ => ⟨rfl, rfl⟩⟩
      | count hcounted' _ hcount' =>
        obtain rfl := Option.some.inj (hcounted'.symm.trans hcounted)
        cases hcount.symm.trans hcount'
    | ok n =>
      let learning := [.duplicates v n false] ++ page.shortRuns v n page.offset
      have hlearned : learning.filterMap Event.learned? = [(v, n)] := by
        rw [List.filterMap_append, filterMap_learned?_shortRuns]
        rfl
      have hlearns : { page with duplicates := [] }.carryOut (.counting make v) =
          ⟨.ok (page.recite n (.counting make v)).1, { page with duplicates := [(v, n)] },
            learning⟩ := carryOut_of_ok make rfl hcount
      rw [hlearns]
      cases h with
      | nothing =>
        refine ⟨learning, ?_, ?_, nofun⟩
        · rw [hlearned]
          exact .count hcounted hself hcount
        · rw [hlearns, hlearned]
          rfl
      | count hcounted' _ hcount' =>
        obtain rfl := Option.some.inj (hcounted.symm.trans hcounted')
        obtain rfl := Except.ok.inj (hcount.symm.trans hcount')
        have hrecites : { page with duplicates := [(v, n)] }.carryOut (.counting make v) =
            ⟨.ok (page.recite n (.counting make v)).1, { page with duplicates := [(v, n)] },
              (page.recite n (.counting make v)).2⟩ :=
          carryOut_of_remembered rfl hself fun w hw => (Option.some.inj hw).symm
        refine ⟨(page.recite n (.counting make v)).2, ?_, ?_, nofun⟩
        · rw [filterMap_learned?_recite]
          exact .count hcounted hself hcount
        · rw [hrecites, filterMap_learned?_recite]
          rfl

theorem Recalls.answers (h : page.Recalls known) (links : List Link) : ∃ events,
    page.Recalls (known ++ events.filterMap Event.learned?) ∧
    { page with duplicates := known }.answers links =
      ⟨links.map fun link => ({ page with duplicates := [] }.answer link).result,
        { page with duplicates := known ++ events.filterMap Event.learned? }, events⟩ := by
  induction links generalizing known with
  | nil =>
    refine ⟨[], ?_, ?_⟩
    · simpa using h
    · simp [Page.answers]
  | cons link links ih =>
    obtain ⟨first, hknown, hanswer, _⟩ := h.answer link
    obtain ⟨rest, hall, hanswers⟩ := ih hknown
    refine ⟨first ++ rest, ?_, ?_⟩
    · rwa [List.filterMap_append, ← List.append_assoc]
    · rw [Page.answers, hanswer]
      simp only [hanswers, List.map_cons, List.filterMap_append, List.append_assoc]

/-- A page remembers at most one count, so no two of equal scalars. -/
theorem Recalls.pairwise (h : page.Recalls known) :
    known.Pairwise fun a b => a.1.same b.1 = false := by
  cases h with
  | nothing => exact .nil
  | count => exact List.pairwise_singleton _ _

theorem Recalls.count_eq (h : page.Recalls known) :
    ∀ entry ∈ known, page.paginator.countDuplicates entry.1 = .ok entry.2 := by
  cases h with
  | nothing => simp
  | count _ _ hcount => simpa using hcount

theorem Recalls.needsNoStore (h : page.Recalls known) (hknown : known ≠ []) :
    { page with duplicates := known }.NeedsNoStore := by
  cases h with
  | nothing => exact absurd rfl hknown
  | count hcounted hself => exact needsNoStore_of_remembered hcounted hself rfl

end Page

/-- A page that was found over any store, and was then asked for tokens any number of times, gave the
answers that it gives when it is asked first. It remembers the counts that it has learned, which are
those that its paginator finds, and none twice. If the next answer fails, what it remembers stays as
it is; and once it remembers a count, it needs no store. -/
theorem Paginator.remembered_counts {C R E : Type} [Record R] [Store C R E] {p : Paginator C}
    {token : Option Token} {page : Page C R} (hpage : (p.page token).result = .ok page)
    (links : List Link) :
    page.duplicates = [] ∧
    (page.answers links).result = links.map (fun link => (page.answer link).result) ∧
    ∃ known, (page.answers links).page = { page with duplicates := known } ∧
      (page.answers links).events.filterMap Event.learned? = known ∧
      known.Pairwise (fun a b => a.1.same b.1 = false) ∧
      (∀ entry ∈ known, p.countDuplicates entry.1 = .ok entry.2) ∧
      (∀ link e, ((page.answers links).page.answer link).result = .error e →
        ((page.answers links).page.answer link).page = (page.answers links).page) ∧
      (known ≠ [] → (page.answers links).page.NeedsNoStore) := by
  obtain ⟨hp, hnone⟩ := finds_page hpage
  subst hp
  have hfresh : { page with duplicates := [] } = page := by rw [← hnone]
  have hnothing : page.Recalls [] := .nothing
  obtain ⟨events, hknown, hanswers⟩ := hnothing.answers links
  rw [hfresh, List.nil_append] at hanswers
  rw [List.nil_append] at hknown
  rw [hanswers]
  refine ⟨hnone, rfl, _, rfl, rfl, hknown.pairwise, hknown.count_eq, ?_, hknown.needsNoStore⟩
  intro link e hfails
  obtain ⟨last, _, hlast, hforgets⟩ := hknown.answer link
  rw [hlast] at hfails ⊢
  obtain ⟨_, rfl⟩ := hforgets e hfails
  simp

/-- A page inside a run of four, counted from its end, learns the length of the run for the next page.
It takes it from memory when it is asked again, after it found the previous page without it. -/
theorem remembered_counts_run : ∃ p, ∃ page : Page (Table Row) Row,
    Paginator.make (⟨ranked [.int 1, .int 2, .int 2, .int 2, .int 2, .int 3]⟩ : Table Row)
      (rankKey false) 2 6 = .ok p ∧
    (p.page (some (.backward "rank" (.integer 2) 1))).result = .ok page ∧
    (page.answers [.next, .previous, .next]).result =
      [page.nextToken.result, page.previousToken.result, page.nextToken.result] ∧
    (page.answers [.next, .previous, .next]).page = { page with duplicates := [(.int 2, 4)] } ∧
    p.countDuplicates (.int 2) = .ok 4 ∧
    { page with duplicates := [(.int 2, 4)] }.NeedsNoStore := by
  obtain ⟨p, page, hmake, hfound⟩ : ∃ p, ∃ page : Page (Table Row) Row,
      Paginator.make (⟨ranked [.int 1, .int 2, .int 2, .int 2, .int 2, .int 3]⟩ : Table Row)
        (rankKey false) 2 6 = .ok p ∧
      (p.page (some (.backward "rank" (.integer 2) 1))).result = .ok page := ⟨_, _, rfl, rfl⟩
  obtain ⟨_, hresult, known, hpage, hlearned, _, hcounts, _, hneeds⟩ :=
    Paginator.remembered_counts hfound [.next, .previous, .next]
  obtain rfl : known = [(.int 2, 4)] := by
    cases hmake
    cases hfound
    exact hlearned.symm
  rw [hpage] at hneeds
  have hcount : p.countDuplicates (.int 2) = .ok 4 := hcounts _ (List.mem_singleton_self _)
  exact ⟨p, page, hmake, hfound, hresult, hpage, hcount, hneeds (by simp)⟩

end Keyset
