import Keyset.Scalar.Codec
import Mathlib

/-!
# The linear order of the scalars of one kind

Comparison is partial and has a case for each pair of kinds. Between scalars of one kind it is the
comparison of ranks in one linear order, with null at the bottom. Whatever needs a total,
transitive order takes it from there.
-/
namespace Keyset

/-- Where a scalar stands among the scalars of its kind. -/
abbrev Rank := WithBot (Int ⊕ₗ String)

namespace Rank

/-- The rank of what is ordered as an integer. -/
def number (n : Int) : Rank := ((toLex (Sum.inl n) : Int ⊕ₗ String) : Rank)

/-- The rank of a text. -/
def text (s : String) : Rank := ((toLex (Sum.inr s) : Int ⊕ₗ String) : Rank)

theorem number_strictMono : StrictMono number :=
  WithBot.coe_strictMono.comp Sum.Lex.inl_strictMono

theorem text_strictMono : StrictMono text :=
  WithBot.coe_strictMono.comp Sum.Lex.inr_strictMono

@[simp] theorem compare_number (m n : Int) : compare (number m) (number n) = compare m n := by
  rw [← cmp_eq_compare, ← cmp_eq_compare, number_strictMono.cmp_map_eq]

@[simp] theorem compare_text (s t : String) : compare (text s) (text t) = compare s t := by
  have h := text_strictMono.cmp_map_eq s t
  rw [cmp_eq_compare, cmp_eq_compare] at h
  exact h

@[simp] theorem compare_bot_number (n : Int) : compare ⊥ (number n) = .lt :=
  compare_lt_iff_lt.2 (WithBot.bot_lt_coe _)

@[simp] theorem compare_number_bot (n : Int) : compare (number n) ⊥ = .gt :=
  compare_gt_iff_gt.2 (WithBot.bot_lt_coe _)

@[simp] theorem compare_bot_text (s : String) : compare ⊥ (text s) = .lt :=
  compare_lt_iff_lt.2 (WithBot.bot_lt_coe _)

@[simp] theorem compare_text_bot (s : String) : compare (text s) ⊥ = .gt :=
  compare_gt_iff_gt.2 (WithBot.bot_lt_coe _)

end Rank

namespace Fixed

/-- The value of a decimal as a multiple of the smallest positive decimal. -/
def aligned (x : Fixed) : Int := x.coefficient * tenTo (maxScale - x.scale)

private theorem aligned_mul (x : Fixed) (places : Nat) :
    x.aligned * tenTo (x.scale + places) = x.coefficient * tenTo places * tenTo maxScale := by
  have hscale : maxScale - x.scale + (x.scale + places) = places + maxScale := by
    have := x.scale_le
    omega
  have hpow : tenTo (maxScale - x.scale) * tenTo (x.scale + places) =
      tenTo places * tenTo maxScale := by
    simp only [tenTo, Nat.pow_eq, ← Nat.pow_add, hscale]
  rw [aligned, Int.mul_assoc, Int.mul_assoc]
  exact_mod_cast congrArg (fun n : Nat => x.coefficient * (n : Int)) hpow

theorem compare_eq_aligned (x y : Fixed) : x.compare y = Ord.compare x.aligned y.aligned := by
  have hscale : (0 : Int) < tenTo maxScale := by exact_mod_cast tenTo_pos _
  have hplaces : (0 : Int) < tenTo (x.scale + y.scale) := by exact_mod_cast tenTo_pos _
  have hy : y.aligned * tenTo (x.scale + y.scale) =
      y.coefficient * tenTo x.scale * tenTo maxScale := by
    rw [Nat.add_comm x.scale]
    exact aligned_mul y x.scale
  rw [compare, ← cmp_eq_compare, ← cmp_eq_compare, ← cmp_mul_pos_right hscale,
    ← cmp_mul_pos_right hplaces x.aligned, aligned_mul, hy]

end Fixed

theorem monthLength_le (year : Int) (month : Nat) : monthLength year month ≤ 31 := by
  unfold monthLength
  split
  · split <;> omega
  · split <;> omega

theorem Date.rank_injective : Function.Injective Date.rank := by
  intro a b h
  obtain ⟨y, m, d, hday⟩ := a
  obtain ⟨y', m', d', hday'⟩ := b
  have hlen := monthLength_le y m
  have hlen' := monthLength_le y' m'
  simp only [IsDay] at hday hday'
  simp only [rank] at h
  rw [Date.mk.injEq]
  omega

theorem Instant.rank_injective : Function.Injective Instant.rank := by
  intro s t h
  have hs := s.isTime
  have ht := t.isTime
  simp only [IsTime, daySeconds, billion] at hs ht
  simp only [rank, daySeconds, billion] at h
  have hdate : s.date.rank = t.date.rank := by omega
  have hsecond : s.second = t.second := by omega
  have hnanos : s.nanos = t.nanos := by omega
  obtain ⟨date, second, nanos, _⟩ := s
  obtain ⟨date', second', nanos', _⟩ := t
  rw [Instant.mk.injEq]
  exact ⟨Date.rank_injective hdate, hsecond, hnanos⟩

namespace Scalar

/-- The rank of a scalar. That of NaN, which is not ordered, says nothing. -/
def rank : Scalar → Rank
  | .null => ⊥
  | .bool b => .number b.toInt
  | .int n => .number n.toInt
  | .float x => .number (x.rank?.getD 0)
  | .decimal d => .number d.aligned
  | .text s => .text s
  | .date d => .number d.rank
  | .datetime t => .number t.rank

theorem isNull_iff {a : Scalar} : a.isNull = true ↔ a = .null := by
  cases a <;> simp [isNull]

theorem rank_eq_bot {a : Scalar} : a.rank = ⊥ ↔ a = .null := by
  cases a <;> simp [rank, Rank.number, Rank.text]

theorem compare_bool (a b : Bool) : compare a b = compare a.toInt b.toInt := by
  cases a <;> cases b <;> decide

/-- The kind of a scalar. Null and NaN have none. -/
def kind? : Scalar → Option ScalarKind
  | .null => none
  | .bool _ => some .boolean
  | .int _ => some .integer
  | .float x => x.rank?.map fun _ => .float
  | .decimal _ => some .decimal
  | .text _ => some .text
  | .date _ => some .date
  | .datetime _ => some .datetime

theorem fits_iff {kind : ScalarKind} {a : Scalar} :
    a.fits kind = true ↔ a = .null ∨ a.kind? = some kind := by
  rw [eq_comm (a := a.kind?)]
  cases a with
  | float x => cases x <;> simp [fits, kind?, Binary64.rank?]
  | _ => simp [fits, kind?]

private theorem float_kind? {x : Binary64} (h : (float x).kind?.isSome) :
    ∃ n, x.rank? = some n := by
  cases x with
  | nan => cases h
  | infinite negative => exact ⟨_, rfl⟩
  | finite x => exact ⟨_, rfl⟩

private theorem compare?_of_kind? {a b : Scalar} (h : a.kind? = b.kind?) (ha : a.kind?.isSome) :
    a.compare? b = some (compare a.rank b.rank) := by
  have hb : b.kind?.isSome := h ▸ ha
  cases a <;> cases b
  case float.float x y =>
    obtain ⟨m, hm⟩ := float_kind? ha
    obtain ⟨n, hn⟩ := float_kind? hb
    simp [compare?, Binary64.compare?, rank, hm, hn]
  all_goals simp_all [kind?, compare?, rank, compare_bool, Fixed.compare_eq_aligned]

/-- Scalars of one kind compare as their ranks. -/
theorem compare?_eq {kind : ScalarKind} {a b : Scalar} (ha : a.fits kind = true)
    (hb : b.fits kind = true) : a.compare? b = some (compare a.rank b.rank) := by
  rcases fits_iff.1 ha with rfl | ha
  · cases b <;> simp [compare?, rank]
  rcases fits_iff.1 hb with rfl | hb
  · cases a <;> simp [compare?, rank]
  exact compare?_of_kind? (ha.trans hb.symm) (by simp [ha])

theorem same_of_kind? {a b : Scalar} (h : a.kind? = b.kind?) :
    a.same b = true ↔ a.compare? b = some .eq := by
  cases a <;> cases b <;>
    simp_all [kind?, same, compare?, Binary64.same, Int64.toInt_inj,
      Date.rank_injective.eq_iff, Instant.rank_injective.eq_iff]

/-- Between scalars of one kind, equality and comparison agree. -/
theorem same_iff_compare? {kind : ScalarKind} {a b : Scalar} (ha : a.fits kind = true)
    (hb : b.fits kind = true) : a.same b = true ↔ a.compare? b = some .eq := by
  rcases fits_iff.1 ha with rfl | ha
  · cases b <;> simp [same, compare?]
  rcases fits_iff.1 hb with rfl | hb
  · cases a <;> simp [same, compare?]
  exact same_of_kind? (ha.trans hb.symm)

/-- Scalars of one kind are equal if their ranks are. -/
theorem same_iff {kind : ScalarKind} {a b : Scalar} (ha : a.fits kind = true)
    (hb : b.fits kind = true) : a.same b = true ↔ a.rank = b.rank := by
  rw [same_iff_compare? ha hb, compare?_eq ha hb, Option.some.injEq, compare_eq_iff_eq]

end Scalar

theorem Json.Number.rank?_toBinary64 (n : Json.Number) : ∃ rank, n.toBinary64.rank? = some rank := by
  cases n with
  | integer n =>
    rw [toBinary64, Binary64.ofInt, Binary64.ofRatio]
    split
    · exact ⟨_, rfl⟩
    · exact ⟨_, rfl⟩
  | float x => exact ⟨_, rfl⟩

/-- What is decoded for a kind is of this kind, and never NaN. -/
theorem ScalarKind.fits_of_ofJson? {kind : ScalarKind} {value : Json.Value} {v : Scalar}
    (h : kind.ofJson? value = some v) : v.fits kind = true := by
  rw [Scalar.fits_iff]
  unfold ofJson? at h
  split at h
  case h_1 => exact .inl (Option.some.inj h).symm
  case h_2 =>
    obtain rfl := Option.some.inj h
    exact .inr rfl
  case h_5 n =>
    obtain rfl := Option.some.inj h
    obtain ⟨rank, hrank⟩ := n.rank?_toBinary64
    exact .inr (by rw [Scalar.kind?, hrank]; rfl)
  case h_8 =>
    obtain rfl := Option.some.inj h
    exact .inr rfl
  case h_11 => cases h
  -- What is read from a text or an integer is of the kind for which it was read.
  all_goals
    obtain ⟨_, _, rfl⟩ := Option.map_eq_some_iff.1 h
    exact .inr rfl

end Keyset
