import Keyset.Proofs.ComparisonOrder

/-!
# Camps of comparable scalars

Null aside, scalars that can be compared form a camp: those of one kind, with the integers in the
camp of the decimals or in that of the numbers of double precision. The camps of a list are apart
unless integers are among both. Then one can put the camps in any order one after the other, with
each camp in its own order, and all comparisons within the camps stay as they are.
-/
namespace Keyset

/-- Whether scalars of two kinds can be compared. -/
def ScalarKind.meets : ScalarKind → ScalarKind → Bool
  | .integer, .decimal => true
  | .decimal, .integer => true
  | .integer, .float => true
  | .float, .integer => true
  | k, l => k == l

theorem ScalarKind.meets_trans {k l m : ScalarKind} (h : k.meets l = true)
    (h' : l.meets m = true) :
    k.meets m = true ∨
      l = .integer ∧ (k = .decimal ∧ m = .float ∨ k = .float ∧ m = .decimal) := by
  cases k <;> cases l <;> cases m <;> simp_all [meets]

theorem Binary64.isSome_compare?_iff {x y : Binary64} :
    (x.compare? y).isSome ↔ (∃ m, x.rank? = some m) ∧ ∃ n, y.rank? = some n := by
  rw [compare?]
  cases x.rank? <;> cases y.rank? <;> simp

namespace Scalar

variable {a b c : Scalar}

theorem isSome_compare?_iff (ha : a ≠ .null) (hb : b ≠ .null) :
    (a.compare? b).isSome ↔ ∃ k ∈ a.kind?, ∃ l ∈ b.kind?, k.meets l = true := by
  cases a <;> cases b <;>
    simp_all [compare?, kind?, ScalarKind.meets, Binary64.isSome_compare?_iff, Binary64.rank?_ofInt]

/-- Scalars that comparison puts in an order: integers do not stand between decimals and numbers of
double precision, and no two of them are rounded to one such number. -/
structure Coherent (ks : List Scalar) : Prop where
  kinds : ¬ ∀ kind ∈ [ScalarKind.integer, .decimal, .float], ∃ a ∈ ks, a.kind? = some kind
  rounding : ∀ a ∈ ks, ∀ b ∈ ks, ∀ c ∈ ks, ¬ RoundsTogether a b c

variable {ks : List Scalar}

theorem Coherent.perm {ls : List Scalar} (h : Coherent ks) (hperm : ks.Perm ls) : Coherent ls where
  kinds hkinds := h.kinds fun kind hkind => by
    obtain ⟨a, ha, hfits⟩ := hkinds kind hkind
    exact ⟨a, hperm.mem_iff.2 ha, hfits⟩
  rounding a ha b hb c hc :=
    h.rounding a (hperm.mem_iff.2 ha) b (hperm.mem_iff.2 hb) c (hperm.mem_iff.2 hc)

/-- Integers up to 2 to the power 53 are not rounded. -/
theorem coherent_of_natAbs_le
    (hkinds : ¬ ∀ kind ∈ [ScalarKind.integer, .decimal, .float], ∃ a ∈ ks, a.kind? = some kind)
    (hsmall : ∀ n, .int n ∈ ks → n.toInt.natAbs ≤ twoTo 53) : Coherent ks where
  kinds := hkinds
  rounding a ha b hb c hc := not_roundsTogether_of_natAbs_le fun n hn => by
    refine hsmall n ?_
    simp only [List.mem_cons, List.not_mem_nil, or_false] at hn
    rcases hn with rfl | rfl | rfl
    · exact ha
    · exact hb
    · exact hc

theorem Coherent.isSome_trans (h : Coherent ks) (ha : a ∈ ks) (hb : b ∈ ks) (hc : c ∈ ks)
    (hnull : b ≠ .null) (hab : (a.compare? b).isSome) (hbc : (b.compare? c).isSome) :
    (a.compare? c).isSome := by
  by_cases hanull : a = .null
  · subst hanull
    cases c <;> rfl
  by_cases hcnull : c = .null
  · subst hcnull
    cases a <;> rfl
  obtain ⟨k, hk, l, hl, hkl⟩ := (isSome_compare?_iff hanull hnull).1 hab
  obtain ⟨l', hl', m, hm, hlm⟩ := (isSome_compare?_iff hnull hcnull).1 hbc
  obtain rfl : l = l' := Option.some.inj (hl.symm.trans hl')
  rcases ScalarKind.meets_trans hkl hlm with hkm | ⟨rfl, ⟨rfl, rfl⟩ | ⟨rfl, rfl⟩⟩
  · exact (isSome_compare?_iff hanull hcnull).2 ⟨k, hk, m, hm, hkm⟩
  · exact absurd (by simpa using ⟨⟨b, hb, hl⟩, ⟨a, ha, hk⟩, c, hc, hm⟩) h.kinds
  · exact absurd (by simpa using ⟨⟨b, hb, hl⟩, ⟨c, hc, hm⟩, a, ha, hk⟩) h.kinds

/-! ## Places of camps -/

/-- The position of the first scalar of the camp of a scalar. -/
def camp (ks : List Scalar) (a : Scalar) : Nat :=
  ks.findIdx fun b => !b.isNull && (b.compare? a).isSome

def height (ks : List Scalar) (a : Scalar) : Nat :=
  ks.countP fun b => b.compare? a == some .lt

theorem camp_eq (h : Coherent ks) (ha : a ∈ ks) (hb : b ∈ ks) (hanull : a ≠ .null)
    (hbnull : b ≠ .null) (hab : (a.compare? b).isSome) : camp ks a = camp ks b := by
  have hle {a b : Scalar} (ha : a ∈ ks) (hb : b ∈ ks) (hnull : a ≠ .null)
      (hab : (a.compare? b).isSome) : camp ks b ≤ camp ks a := by
    refine List.findIdx_le_findIdx fun c hc hca => ?_
    rw [Bool.and_eq_true] at hca ⊢
    exact ⟨hca.1, h.isSome_trans hc ha hb hnull hca.2 hab⟩
  exact le_antisymm (hle hb ha hbnull (isSome_compare?_swap.trans hab)) (hle ha hb hanull hab)

theorem exists_camp (h : camp ks a < ks.length) :
    ∃ b, ks[camp ks a]? = some b ∧ b ≠ .null ∧ (b.compare? a).isSome := by
  have hfirst := List.findIdx_getElem (w := h)
  rw [Bool.and_eq_true, Bool.not_eq_true', Bool.eq_false_iff, Ne, isNull_iff] at hfirst
  exact ⟨_, List.getElem?_eq_getElem h, hfirst⟩

theorem camp_lt (ha : a ∈ ks) (hnull : a ≠ .null) (hself : (a.compare? a).isSome) :
    camp ks a < ks.length := by
  refine List.findIdx_lt_length_of_exists ⟨a, ha, ?_⟩
  rw [Bool.and_eq_true, Bool.not_eq_true', Bool.eq_false_iff, Ne, isNull_iff]
  exact ⟨hnull, hself⟩

theorem isSome_of_camp_eq (h : Coherent ks) (ha : a ∈ ks) (hb : b ∈ ks) (hnull : a ≠ .null)
    (hself : (a.compare? a).isSome) (hcamp : camp ks a = camp ks b) : (a.compare? b).isSome := by
  have hlt := camp_lt ha hnull hself
  obtain ⟨c, hc, hcnull, hca⟩ := exists_camp hlt
  obtain ⟨c', hc', _, hcb⟩ := exists_camp (hcamp ▸ hlt : camp ks b < ks.length)
  obtain rfl : c = c' := Option.some.inj (hc.symm.trans (hcamp ▸ hc'))
  exact h.isSome_trans ha (List.mem_of_getElem? hc) hb hcnull (isSome_compare?_swap.trans hca) hcb

/-! ## Places in a camp -/

theorem compare?_self (h : (a.compare? a).isSome) : a.compare? a = some .eq := by
  obtain ⟨order, horder⟩ := Option.isSome_iff_exists.1 h
  have hswap := compare?_swap a a
  rw [horder] at hswap ⊢
  have hswap : order = order.swap := Option.some.inj hswap
  cases order with
  | eq => rfl
  | lt => cases hswap
  | gt => cases hswap

/-- Only NaN cannot be compared with itself. -/
theorem isSome_compare?_self (h : a ≠ .float .nan) : (a.compare? a).isSome := by
  cases a with
  | float x =>
    refine (isSome_compare?_iff (by simp) (by simp)).2 ?_
    cases x with
    | nan => exact absurd rfl h
    | _ => simp [kind?, Binary64.rank?, ScalarKind.meets]
  | _ => rfl

theorem compare?_nan (h : a ≠ .null) : (float .nan).compare? a = none := by
  cases a with
  | null => exact absurd rfl h
  | int n => simp [compare?, Binary64.compare?, Binary64.rank?]
  | float x => simp [compare?, Binary64.compare?, Binary64.rank?]
  | _ => rfl

theorem ne_nan_of_compare? (h : a.compare? b = some .eq) : a ≠ .float .nan := by
  rintro rfl
  by_cases hnull : b = .null
  · subst hnull
    cases h
  · rw [compare?_nan hnull] at h
    cases h

private theorem countP_lt_countP {α : Type} {p q : α → Bool} {xs : List α} {x : α}
    (h : ∀ y ∈ xs, p y = true → q y = true) (hx : x ∈ xs) (hq : q x = true) (hp : p x = false) :
    xs.countP p < xs.countP q := by
  have hboth : xs.filter p = (xs.filter q).filter p := by
    rw [List.filter_filter]
    refine List.filter_congr fun y hy => ?_
    cases hy' : p y with
    | true => exact (h y hy hy').symm
    | false => rfl
  rw [List.countP_eq_length_filter, List.countP_eq_length_filter, hboth,
    List.length_filter_lt_length_iff_exists]
  exact ⟨x, List.mem_filter.2 ⟨hx, hq⟩, by simp [hp]⟩

theorem Coherent.ordersThree (h : Coherent ks) (ha : a ∈ ks) (hb : b ∈ ks) (hc : c ∈ ks) :
    OrdersThree a b c :=
  ordersThree_of_not_roundsTogether (h.rounding a ha b hb c hc)

theorem height_lt (h : Coherent ks) (ha : a ∈ ks) (hb : b ∈ ks) (hnull : a ≠ .null)
    (hab : a.compare? b = some .lt) : height ks a < height ks b := by
  refine countP_lt_countP (fun c hc hca => ?_) ha (beq_iff_eq.2 hab) ?_
  · rw [beq_iff_eq] at hca ⊢
    have hsome := h.isSome_trans hc ha hb hnull (by rw [hca]; rfl) (by rw [hab]; rfl)
    exact (h.ordersThree hc ha hb (.inl hca) (.inl hab) hsome).2 (.inl hca)
  · by_cases hself : (a.compare? a).isSome
    · rw [compare?_self hself]
      rfl
    · rw [Option.not_isSome_iff_eq_none.1 hself]
      rfl

theorem height_eq (h : Coherent ks) (ha : a ∈ ks) (hb : b ∈ ks) (hnull : a ≠ .null)
    (hbnull : b ≠ .null) (hab : a.compare? b = some .eq) : height ks a = height ks b := by
  have hle {a b : Scalar} (ha : a ∈ ks) (hb : b ∈ ks) (hnull : a ≠ .null)
      (hab : a.compare? b = some .eq) {c : Scalar} (hc : c ∈ ks) (hca : c.compare? a = some .lt) :
      c.compare? b = some .lt := by
    have hsome := h.isSome_trans hc ha hb hnull (by rw [hca]; rfl) (by rw [hab]; rfl)
    exact (h.ordersThree hc ha hb (.inl hca) (.inr hab) hsome).2 (.inl hca)
  have hba : b.compare? a = some .eq := by rw [compare?_swap, hab]; rfl
  refine List.countP_congr fun c hc => ?_
  rw [beq_iff_eq, beq_iff_eq]
  exact ⟨hle ha hb hnull hab hc, hle hb ha hbnull hba hc⟩

/-- The place of a camp among the camps, or in the other direction if they are turned round. Null is
below all camps. -/
def campPlace (ks : List Scalar) (turned : Bool) (a : Scalar) : Int :=
  if a = .null then -(ks.length + 1) else if turned then -(camp ks a) else camp ks a

theorem campPlace_null_lt (turned : Bool) (h : a ≠ .null) :
    campPlace ks turned .null < campPlace ks turned a := by
  have hle : camp ks a ≤ ks.length := List.findIdx_le_length
  rw [campPlace, campPlace, if_pos rfl, if_neg h]
  split <;> omega

/-- Comparison is that of the places of the camps, and in one camp that of the heights. -/
theorem Coherent.lt_of_compare? (h : Coherent ks) (turned : Bool) (ha : a ∈ ks) (hb : b ∈ ks)
    (hab : a.compare? b = some .lt) :
    campPlace ks turned a < campPlace ks turned b ∨
      campPlace ks turned a = campPlace ks turned b ∧ height ks a < height ks b := by
  have hbnull : b ≠ .null := by
    rintro rfl
    cases a <;> cases hab
  by_cases hnull : a = .null
  · subst hnull
    exact .inl (campPlace_null_lt turned hbnull)
  · refine .inr ⟨?_, height_lt h ha hb hnull hab⟩
    rw [campPlace, campPlace, if_neg hnull, if_neg hbnull,
      camp_eq h ha hb hnull hbnull (by rw [hab]; rfl)]

theorem Coherent.eq_of_compare? (h : Coherent ks) (turned : Bool) (ha : a ∈ ks) (hb : b ∈ ks)
    (hab : a.compare? b = some .eq) :
    campPlace ks turned a = campPlace ks turned b ∧ height ks a = height ks b := by
  by_cases hnull : a = .null
  · subst hnull
    obtain rfl : b = .null := by cases b <;> first | rfl | cases hab
    exact ⟨rfl, rfl⟩
  · have hbnull : b ≠ .null := by
      rintro rfl
      cases a <;> first | exact hnull rfl | cases hab
    refine ⟨?_, height_eq h ha hb hnull hbnull hab⟩
    rw [campPlace, campPlace, if_neg hnull, if_neg hbnull,
      camp_eq h ha hb hnull hbnull (by rw [hab]; rfl)]

/-- Scalars that cannot be compared change places when the camps are turned round, if they are not
both NaN. -/
theorem Coherent.turned_of_compare? (h : Coherent ks) (ha : a ∈ ks) (hb : b ∈ ks)
    (hab : a.compare? b = none) (hnan : a = .float .nan → b ≠ .float .nan) :
    campPlace ks false a < campPlace ks false b ∧ campPlace ks true b < campPlace ks true a ∨
      campPlace ks false b < campPlace ks false a ∧ campPlace ks true a < campPlace ks true b := by
  have hnull : a ≠ .null := by
    rintro rfl
    cases b <;> cases hab
  have hbnull : b ≠ .null := by
    rintro rfl
    cases a <;> cases hab
  have hnone : ¬ (a.compare? b).isSome := by simp [hab]
  have hne : camp ks a ≠ camp ks b := by
    intro hcamp
    by_cases hself : a = .float .nan
    · refine hnone (isSome_compare?_swap.trans ?_)
      exact isSome_of_camp_eq h hb ha hbnull (isSome_compare?_self (hnan hself)) hcamp.symm
    · exact hnone (isSome_of_camp_eq h ha hb hnull (isSome_compare?_self hself) hcamp)
  simp only [campPlace, if_neg hnull, if_neg hbnull, if_true, Bool.false_eq_true, if_false]
  omega

end Scalar

end Keyset
