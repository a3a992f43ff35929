import Keyset.Proofs.Windows

/-!
# The windows of tokens

A token that is made of a record's scalar leads to the window of this scalar, if the scalar comes back
from its JSON value. Every other token leads to the first page, to the last one, or to the window of
the boundary that it names.
-/
namespace Keyset

namespace SortKey

variable {R : Type} [Record R] {key : SortKey}

/-- The scalars of records come back from tokens as equal scalars. -/
def DecodesBack (key : SortKey) (records : List R) : Prop :=
  ∀ r ∈ records, ∃ v ∈ key.kind.ofJson? (key.scalarOf r).toJson, (key.scalarOf r).same v = true

instance (key : SortKey) (records : List R) : Decidable (key.DecodesBack records) :=
  List.decidableBAll _ _

theorem DecodesBack.perm {xs ys : List R} (h : key.DecodesBack xs)
    (hperm : xs.Perm ys) : key.DecodesBack ys :=
  fun r hr => h r (hperm.mem_iff.2 hr)

end SortKey

namespace Paginator

variable {R : Type} [Record R] {p : Paginator (Table R)}

/-- The window of a boundary depends on the cuts alone. -/
theorem boundaryWindow_congr {v w : Scalar} (hbefore : p.before v = p.before w)
    (hupTo : p.upTo v = p.upTo w) (kind : PageKind) (offset : Nat) :
    p.boundaryWindow kind v offset = p.boundaryWindow kind w offset := by
  cases kind <;> simp only [boundaryWindow, hbefore, hupTo]

theorem boundaryWindow_forward {v : Scalar} {start offset : Nat}
    (hstart : p.before v + offset = start) (hlt : start < p.store.records.length) :
    p.boundaryWindow .forward v offset = .ok (p.pageFrom start offset false) := by
  rw [boundaryWindow, hstart, if_neg (not_le.2 hlt)]

theorem boundaryWindow_backward {v : Scalar} {stop offset : Nat}
    (hstop : p.upTo v - offset - 1 = stop) :
    p.boundaryWindow .backward v offset =
      if p.perPage < stop then .ok (p.pageBefore stop offset) else .error .startOfSequence := by
  simp only [boundaryWindow, hstop]
  by_cases hfar : p.perPage < stop
  · rw [if_pos hfar, if_neg (by omega)]
  · rw [if_neg hfar, if_pos (by omega)]

/-- The page of a forward boundary starts after the records that its offset skips. -/
theorem eq_pageFrom {v : Scalar} {offset : Nat} {page : Page (Table R) R}
    (h : p.boundaryWindow .forward v offset = .ok page) :
    p.before v + offset < p.store.records.length ∧
      page = p.pageFrom (p.before v + offset) offset false := by
  by_cases hlt : p.before v + offset < p.store.records.length
  · rw [boundaryWindow_forward rfl hlt, Except.ok.injEq] at h
    exact ⟨hlt, h.symm⟩
  · rw [boundaryWindow, if_pos (not_lt.1 hlt)] at h
    cases h

theorem eq_pageBefore {v : Scalar} {offset : Nat} {page : Page (Table R) R}
    (h : p.boundaryWindow .backward v offset = .ok page) :
    p.perPage < p.upTo v - offset - 1 ∧
      page = p.pageBefore (p.upTo v - offset - 1) offset := by
  rw [boundaryWindow_backward rfl] at h
  split at h
  · next hfar => exact ⟨hfar, (Except.ok.inj h).symm⟩
  · cases h

theorem window_of_ofJson? (hmany : p.perPage < p.store.records.length) {kind : PageKind}
    (hkind : kind = .forward ∨ kind = .backward) {value : Json.Value} {v : Scalar}
    (hvalue : p.key.kind.ofJson? value = some v) (offset : Nat) :
    p.window (some ⟨kind, some p.key.key, some value, offset⟩) = p.boundaryWindow kind v offset := by
  rcases hkind with rfl | rfl <;> simp [window, hvalue, not_le.2 hmany]

theorem window_getElem (hp : p.IsSorted) (hback : p.key.DecodesBack p.store.records)
    (hmany : p.perPage < p.store.records.length) {i : Nat} (hi : i < p.store.records.length)
    {kind : PageKind} (hkind : kind = .forward ∨ kind = .backward) (offset : Nat) :
    p.window (some ⟨kind, some p.key.key, some (p.key.scalarOf p.store.records[i]).toJson,
      offset⟩) = p.boundaryWindow kind (p.key.scalarOf p.store.records[i]) offset := by
  obtain ⟨v, hvalue, hsame⟩ := hback _ (List.getElem_mem hi)
  have hfit := hp.fits_getElem hi
  have hv := ScalarKind.fits_of_ofJson? hvalue
  rw [boundaryWindow_congr (hp.before_congr hfit hv hsame) (hp.upTo_congr hfit hv hsame)]
  exact window_of_ofJson? hmany hkind hvalue offset

theorem window_first : p.window (some .first) = .ok (p.pageFrom 0 0 true) := by
  simp [window, Token.first]

theorem window_last (hmany : p.perPage < p.store.records.length) :
    p.window (some (.last p.key.key)) = .ok (p.pageBefore p.store.records.length 0) := by
  simp [window, Token.last, not_le.2 hmany]

theorem window_boundary (hmany : p.perPage < p.store.records.length) {token : Token}
    (hkind : token.kind = .forward ∨ token.kind = .backward) {page : Page (Table R) R}
    (h : p.window (some token) = .ok page) :
    ∃ v, token.value.bind p.key.kind.ofJson? = some v ∧ v.fits p.key.kind = true ∧
      p.boundaryWindow token.kind v token.offset = .ok page := by
  have hfirst : ¬ (token.kind = .first ∨ p.store.records.length ≤ p.perPage) := by
    rintro (hfirst | hfew)
    · rw [hfirst] at hkind
      simp at hkind
    · omega
  rw [window, if_neg hfirst] at h
  split at h
  · cases h
  · split at h
    · cases h
    · split at h
      · next hlast =>
        rw [hlast] at hkind
        simp at hkind
      · cases h
      · next value hvalue _ =>
        split at h
        · cases h
        · next v hdecode =>
          rw [hvalue]
          exact ⟨v, hdecode, ScalarKind.fits_of_ofJson? hdecode, h⟩

theorem window_of_last (hmany : p.perPage < p.store.records.length) {token : Token}
    (hkind : token.kind = .last) {page : Page (Table R) R} (h : p.window (some token) = .ok page) :
    page = p.pageBefore p.store.records.length 0 := by
  rw [window, hkind, if_neg (by simp [not_le.2 hmany])] at h
  split at h
  · cases h
  · split at h
    · cases h
    · exact (Except.ok.inj h).symm

/-- A token leads to the first page, to the last one, or to the window of its boundary. -/
theorem window_cases (hmany : p.perPage < p.store.records.length) {token : Option Token}
    {page : Page (Table R) R} (h : p.window token = .ok page) :
    page = p.pageFrom 0 0 true ∨ page = p.pageBefore p.store.records.length 0 ∨
      ∃ t v, token = some t ∧ (t.kind = .forward ∨ t.kind = .backward) ∧
        t.value.bind p.key.kind.ofJson? = some v ∧ v.fits p.key.kind = true ∧
        p.boundaryWindow t.kind v t.offset = .ok page := by
  cases token with
  | none => exact .inl (Except.ok.inj h).symm
  | some t =>
    have hboundary := fun hkind : t.kind = .forward ∨ t.kind = .backward =>
      window_boundary hmany hkind h
    cases hkind : t.kind with
    | first =>
      rw [window, if_pos (.inl hkind)] at h
      exact .inl (Except.ok.inj h).symm
    | last => exact .inr (.inl (window_of_last hmany hkind h))
    | forward =>
      obtain ⟨v, hv, hfit, hwindow⟩ := hboundary (.inl hkind)
      exact .inr (.inr ⟨t, v, rfl, .inl hkind, hv, hfit, hkind ▸ hwindow⟩)
    | backward =>
      obtain ⟨v, hv, hfit, hwindow⟩ := hboundary (.inr hkind)
      exact .inr (.inr ⟨t, v, rfl, .inr hkind, hv, hfit, hkind ▸ hwindow⟩)

/-- A paginator over more records than one page holds, with scalars that come back from tokens. -/
structure Navigable (p : Paginator (Table R)) (records : List R) : Prop
    extends p.Serves records where
  decodesBack : p.key.DecodesBack p.store.records
  many : p.perPage < p.store.records.length

theorem Serves.navigable {records : List R} (hp : p.Serves records)
    (hback : p.key.DecodesBack records) (hmany : p.perPage < records.length) :
    p.Navigable records := by
  have hlength := hp.length_eq
  exact ⟨hp, hback.perm hp.perm.symm, by omega⟩

theorem exists_navigable {records : List R} {key : SortKey} {perPage : Nat}
    (hsuits : key.Suits records) (hback : key.DecodesBack records)
    (hlength : records.length ≤ maxLength) (hper : 1 < perPage) (hmany : perPage < records.length) :
    ∃ table p, Table.orderedBy key records = .ok table ∧
      make table key perPage records.length = .ok p ∧ p.Navigable records := by
  obtain ⟨table, p, htable, hmake, hserves, _, rfl, rfl⟩ := exists_serves hsuits hlength hper
  exact ⟨table, p, htable, hmake, hserves.navigable hback hmany⟩

end Paginator

end Keyset
