import Keyset.Proofs.RunOffsets
import Keyset.Proofs.TokenTexts
import Keyset.Proofs.TokenValues

/-!
# Walks by texts

Between two pages a client may keep the text of a token instead of the token. The reader takes no
offset of more than 63 bits, but no page gives one: offsets stay below the length of the listing.
-/
namespace Keyset

variable {R : Type} [Record R]

/-! ## The tokens of reached pages -/

/-- A token whose value, if it has one, is that of a scalar, and whose offset does not pass the end of
a listing. -/
structure Token.StaysIn (token : Token) (length : Nat) : Prop where
  value : ∀ v ∈ token.value, ∃ a : Scalar, a.toJson = v
  offset_le : token.offset ≤ length

namespace Token

theorem staysIn_first (length : Nat) : first.StaysIn length :=
  ⟨(fun _ hv => by cases hv), Nat.zero_le _⟩

theorem staysIn_last (key : String) (length : Nat) : (last key).StaysIn length :=
  ⟨(fun _ hv => by cases hv), Nat.zero_le _⟩

theorem staysIn_forward (key : String) (a : Scalar) {offset length : Nat} (h : offset ≤ length) :
    (forward key a.toJson offset).StaysIn length :=
  ⟨fun _ hv => ⟨a, Option.some.inj hv⟩, h⟩

theorem staysIn_backward (key : String) (a : Scalar) {offset length : Nat} (h : offset ≤ length) :
    (backward key a.toJson offset).StaysIn length :=
  ⟨fun _ hv => ⟨a, Option.some.inj hv⟩, h⟩

theorem StaysIn.decode_encode {token : Token} {length : Nat} (h : token.StaysIn length)
    (hlength : length ≤ maxLength) : Token.decode token.encode = .ok token := by
  apply decode_encode_of_lt
  · have hoffset := h.offset_le
    rw [maxLength] at hlength
    rw [offsetLimit]
    omega
  · intro v hv
    obtain ⟨a, rfl⟩ := h.value v hv
    exact a.within_toJson

end Token

namespace Page

variable {p : Paginator (Table R)} {records : List R} {page : Page (Table R) R} {first : Nat}
  {token : Token}

theorem Shows.info_staysIn (h : page.Shows p first) (hlt : first < p.store.records.length) :
    page.info.StaysIn p.store.records.length := by
  cases hfirst : page.isFirst with
  | true =>
    rw [Shows.info_first hfirst]
    exact Token.staysIn_first _
  | false =>
    by_cases hnext : first + p.perPage < p.store.records.length
    · cases hforward : page.forward with
      | true =>
        rw [h.info_forward hfirst hforward hlt hnext]
        exact Token.staysIn_forward _ _ h.offset_le
      | false =>
        rw [h.info_backward hfirst hforward hnext]
        exact Token.staysIn_backward _ _ h.offset_le
    · rw [h.info_last hfirst (not_lt.1 hnext)]
      exact Token.staysIn_last _ _

/-- An aligned page gives no token with an offset beyond the listing. -/
theorem Aligned.staysIn_of_gives (h : page.Aligned p first) (hp : p.Holds records)
    (htoken : page.Gives token) : token.StaysIn p.store.records.length := by
  have hsorted := hp.isSorted
  cases htoken with
  | again => exact h.info_staysIn h.lt
  | next hnext =>
    by_cases hlt : first + p.perPage < p.store.records.length
    · have hgiven := (h.toShows.nextToken hsorted hp.exceeds hlt).result
      rw [hnext, Except.ok.injEq, Option.some.injEq] at hgiven
      have hoffset := h.nextOffset_eq hsorted hlt
      rw [hgiven]
      exact Token.staysIn_forward _ _ (by omega)
    · have hnone := (h.toShows.nextToken_none (not_lt.1 hlt)).result
      rw [hnext] at hnone
      cases hnone
  | previous hprevious =>
    cases hfirst : page.isFirst with
    | true =>
      have hnone := (h.toShows.previousToken_none hfirst).result
      rw [hprevious] at hnone
      cases hnone
    | false =>
      have hgiven := (h.toShows.previousToken hsorted hp.exceeds hfirst h.lt).result
      rw [hprevious, Except.ok.injEq, Option.some.injEq] at hgiven
      have hlt := h.lt
      have hoffset := h.previousOffset_eq hsorted hlt
      have hle := p.upTo_le (v := p.key.scalarOf p.store.records[first])
      rw [hgiven]
      exact Token.staysIn_backward _ _ (by omega)

theorem ShowsAll.eq_first_of_gives (h : page.ShowsAll p) (htoken : page.Gives token) :
    token = .first := by
  cases htoken with
  | again => exact Shows.info_first h.isFirst
  | next hnext =>
    have hle := h.length_le
    have hnone := (h.toShows.nextToken_none (by omega)).result
    rw [hnext] at hnone
    cases hnone
  | previous hprevious =>
    have hnone := (h.toShows.previousToken_none h.isFirst).result
    rw [hprevious] at hnone
    cases hnone

end Page

namespace Paginator

variable {p : Paginator (Table R)} {records : List R} {page : Page (Table R) R}
  {entry : Token → Prop}

theorem Reaches.mono {other : Token → Prop} (h : p.Reaches entry page)
    (hentry : ∀ t, entry t → other t) : p.Reaches other page := by
  induction h with
  | first hpage => exact .first hpage
  | last hpage => exact .last hpage
  | enter h hpage => exact .enter (hentry _ h) hpage
  | follow _ htoken hpage ih => exact .follow ih htoken hpage
  | askNext _ ih => exact .askNext ih
  | askPrevious _ ih => exact .askPrevious ih

theorem Reaches.staysIn_of_gives (hp : p.Serves records) (hback : p.key.DecodesBack records)
    (h : p.Reaches p.EntersRun page) {token : Token} (htoken : page.Gives token) :
    token.StaysIn p.store.records.length := by
  have hlength := hp.length_eq
  by_cases hmany : p.perPage < p.store.records.length
  · obtain ⟨first, haligned⟩ := h.aligned (hp.navigable hback (by omega))
    exact haligned.staysIn_of_gives hp.toHolds htoken
  · rw [(h.showsAll hp (not_lt.1 hmany)).eq_first_of_gives htoken]
    exact Token.staysIn_first _

end Paginator

/-! ## Clients that keep texts -/

/-- What a client asks the page that it has for. -/
inductive Link where
  | again
  | next
  | previous
  deriving DecidableEq, Repr

def Page.link (page : Page (Table R) R) :
    Link → Answer (Table R) R (Except (PageError Incomparable) (Option Token))
  | .again => ⟨.ok (some page.info), page, []⟩
  | .next => page.nextToken
  | .previous => page.previousToken

namespace Paginator

/-- The page of the text of a token. -/
def pageOfText (p : Paginator (Table R)) (text : String) :
    Except (PageError Incomparable) (Page (Table R) R) := do
  let token ← (Token.decode text).mapError .token
  (p.page (some token)).result

/-- All that a client gets which goes along links from a page on: pages, errors, or the answer that
there is no such page. Without another page it stays where it is. -/
def tour (fetch : Token → Except (PageError Incomparable) (Page (Table R) R))
    (page : Page (Table R) R) :
    List Link → List (Except (PageError Incomparable) (Option (Page (Table R) R)))
  | [] => []
  | link :: rest =>
    let answer := page.link link
    match answer.result with
    | .error e => .error e :: tour fetch answer.page rest
    | .ok none => .ok none :: tour fetch answer.page rest
    | .ok (some token) => match fetch token with
      | .error e => .error e :: tour fetch answer.page rest
      | .ok after => .ok (some after) :: tour fetch after rest

variable {p : Paginator (Table R)} {page : Page (Table R) R} {entry : Token → Prop}

theorem pageOfText_encode (p : Paginator (Table R)) {token : Token}
    (h : Token.decode token.encode = .ok token) :
    p.pageOfText token.encode = (p.page (some token)).result := by
  rw [pageOfText, h]
  rfl

theorem Reaches.link (h : p.Reaches entry page) (link : Link) :
    p.Reaches entry (page.link link).page := by
  cases link with
  | again => exact h
  | next => exact h.askNext
  | previous => exact h.askPrevious

theorem gives_of_link {link : Link} {token : Token}
    (h : (page.link link).result = .ok (some token)) : page.Gives token := by
  cases link with
  | again =>
    obtain rfl := Option.some.inj (Except.ok.inj h)
    exact .again
  | next => exact .next h
  | previous => exact .previous h

/-- Clients see the same from a page on, if all tokens they meet come back from their texts. -/
theorem Reaches.tour_eq (hback : ∀ page, p.Reaches entry page → ∀ token, page.Gives token →
      Token.decode token.encode = .ok token)
    (h : p.Reaches entry page) (links : List Link) :
    tour (fun token => p.pageOfText token.encode) page links =
      tour (fun token => (p.page (some token)).result) page links := by
  induction links generalizing page with
  | nil => rfl
  | cons link rest ih =>
    have hasked := ih (h.link link)
    rw [tour, tour]
    cases hanswer : (page.link link).result with
    | error e => simp only [hasked]
    | ok token? =>
      cases token? with
      | none => simp only [hasked]
      | some token =>
        have hgives := gives_of_link hanswer
        have htext := p.pageOfText_encode (hback page h token hgives)
        simp only [htext]
        cases hpage : (p.page (some token)).result with
        | error e => simp only [hasked]
        | ok after => simp only [ih (h.follow hgives hpage)]

end Paginator

/-- In every listing without infinities, each token of a page that is reached from the first or the
last page comes back from its text, so that a client who keeps only texts sees the same pages, and
the same ends of the listing, as one who keeps tokens. -/
theorem walks_by_text {key : SortKey} {records : List R} {perPage : Nat}
    (hsuits : key.Suits records) (hfinite : ∀ r ∈ records, (key.scalarOf r).isInfinite = false)
    (hlength : records.length ≤ maxLength) (hper : 1 < perPage) :
    ∃ table p, Table.orderedBy key records = .ok table ∧
      Paginator.make table key perPage records.length = .ok p ∧
      ∀ page, p.Reaches (fun _ => False) page →
        (∀ token, page.Gives token → Token.decode token.encode = .ok token) ∧
        ∀ links, Paginator.tour (fun token => p.pageOfText token.encode) page links =
          Paginator.tour (fun token => (p.page (some token)).result) page links := by
  obtain ⟨table, p, htable, hmake, hp, _, rfl, _⟩ :=
    Paginator.exists_serves hsuits hlength hper
  have hback : ∀ page, p.Reaches (fun _ => False) page → ∀ token,
      page.Gives token → Token.decode token.encode = .ok token := by
    intro page hpage token htoken
    have hentered : p.Reaches p.EntersRun page := hpage.mono fun _ hfalse => hfalse.elim
    have hstays := hentered.staysIn_of_gives hp (SortKey.decodesBack_of_finite hsuits hfinite) htoken
    exact hstays.decode_encode (hp.length_eq.trans_le hlength)
  exact ⟨table, p, htable, hmake, fun page hpage =>
    ⟨hback page hpage, fun links => hpage.tour_eq hback links⟩⟩

theorem walks_by_text_ranked :
    ∃ table p page, Table.orderedBy (rankKey true) tiedRanks = .ok table ∧
      Paginator.make table (rankKey true) 2 5 = .ok p ∧
      p.Reaches (fun _ => False) page ∧ page.records.map Row.id = [4, 2] ∧
      (∀ token, page.Gives token → Token.decode token.encode = .ok token) ∧
      ∀ links, Paginator.tour (fun token => p.pageOfText token.encode) page links =
        Paginator.tour (fun token => (p.page (some token)).result) page links := by
  obtain ⟨table, p, htable, hmake, hpages⟩ :=
    walks_by_text suits_tiedRanks (by decide) (by decide) one_lt_two
  obtain rfl := Except.ok.inj (orderedBy_tiedRanks.symm.trans htable)
  obtain rfl : tied = p := Except.ok.inj hmake
  exact ⟨_, _, _, htable, hmake, reaches_tied _, rfl, hpages _ (reaches_tied _)⟩

end Keyset
