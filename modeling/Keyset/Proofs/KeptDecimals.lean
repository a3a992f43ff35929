import Keyset.Proofs.PrintedDoubles

/-!
# Decimals behind double precision

A decimal that is rounded to double precision and written again comes back if it is the shortest
numeral of the number it is rounded to. With fifteen digits it always is, and with more than
seventeen it never is.
-/
namespace Keyset

theorem signed_inj {negative : Bool} {x y : ℚ} : signed negative x = signed negative y ↔ x = y := by
  cases negative <;> simp [signed]

namespace Fixed

open Shortest (HasDigits)

variable {d : Fixed}

/-- The shortest numeral of the double-precision number that is nearest to a decimal. -/
def shortened (d : Fixed) : Numeral :=
  Shortest.numeral Json.floatLayout.tie (codeOfRat |d.value|)

theorem abs_value_eq (d : Fixed) : |d.value| = (Numeral.mk d.magnitude (-d.scale)).value := by
  rw [abs_value, Numeral.value, zpow_neg, zpow_natCast, div_eq_mul_inv]

theorem exists_abs_value (d : Fixed) : ∃ k, |d.value| = (Numeral.mk k (-28)).value := by
  have hle : (-28 : Int) ≤ -d.scale := by
    have hscale := d.scale_le
    simp only [maxScale] at hscale
    omega
  obtain ⟨k, hk⟩ := Numeral.exists_value_eq ⟨d.magnitude, -d.scale⟩ hle
  exact ⟨k, d.abs_value_eq.trans hk⟩

/-- Decimals are far from the smallest numbers of double precision ... -/
theorem le_codeOfRat_abs_value (h : d.value ≠ 0) : twoTo 52 ≤ codeOfRat |d.value| := by
  have hsmallest : valueOfCode (twoTo 52) ≤ (10 : ℚ) ^ (-28 : Int) := by
    have hunits : unitsOfCode (twoTo 52) = twoTo 52 := by
      have hcode := unitsOfCode_normal (twoTo_pos 52) 0
      rwa [Nat.zero_add, Nat.mul_one, Nat.add_zero, twoTo_zero, Nat.mul_one] at hcode
    rw [valueOfCode, hunits, twoTo_div_twoTo]
    refine zpow_le_zpow_neg (by norm_num) ?_ two_pos
    exact ten_zpow_le_two_zpow (by decide) (by decide)
  obtain ⟨k, hk⟩ := d.exists_abs_value
  have hone : 1 ≤ k := by
    rw [Nat.one_le_iff_ne_zero]
    rintro rfl
    refine h (abs_eq_zero.1 ?_)
    simp [hk, Numeral.value]
  have hle : (10 : ℚ) ^ (-28 : Int) ≤ |d.value| := by
    rw [hk, Numeral.value]
    exact le_mul_of_one_le_left (by positivity) (by exact_mod_cast hone)
  exact (codeOfRat_valueOfCode _).ge.trans (codeOfRat_mono (hsmallest.trans hle))

/-- ... and from the largest. -/
theorem codeOfRat_abs_value_lt (d : Fixed) : codeOfRat |d.value| < infinityCode := by
  have hvalue : |d.value| ≤ valueOfCode (twoTo 52 * (1118 + 1) + 0) := by
    rw [valueOfCode, unitsOfCode_normal (twoTo_pos 52), Nat.add_zero, ← twoTo_add, twoTo_div_twoTo]
    refine d.abs_value_lt.le.trans ?_
    norm_num
  have hcode := codeOfRat_mono hvalue
  rw [codeOfRat_valueOfCode] at hcode
  exact hcode.trans_lt (by decide)

theorem codeOfRat_smallest : codeOfRat (Numeral.mk 1 (-28)).value = 0x3a1fb0f6be506019 := by
  rw [← Numeral.code_eq_codeOfRat]
  decide +kernel

/-- The smallest decimal is a little larger than its nearest number, and is written all the same. -/
theorem read?_render_smallest (negative : Bool) :
    read? (Json.floatLayout.render ⟨negative, 0x3a1fb0f6be506019, by decide⟩) =
      some ⟨negative, 1, 28, by decide, by decide⟩ := by
  cases negative <;> decide +kernel

/-- Every other decimal is so far from zero that its number has no smaller digits. -/
theorem shortened_eq_or_le (h : d.value ≠ 0) : |d.value| = (Numeral.mk 1 (-28)).value ∨
    -(maxScale : Int) ≤ d.shortened.exponent := by
  have hnormal := le_codeOfRat_abs_value h
  have hpos : 0 < codeOfRat |d.value| := lt_of_lt_of_le (twoTo_pos 52) hnormal
  obtain ⟨k, hk⟩ := d.exists_abs_value
  by_cases hone : k = 1
  · exact .inl (hone ▸ hk)
  · have htwo : 2 ≤ k := by
      have hzero : k ≠ 0 := by
        rintro rfl
        refine h (abs_eq_zero.1 ?_)
        simp [hk, Numeral.value]
      omega
    have hlarge : 2 * (10 : ℚ) ^ (-28 : Int) ≤ |d.value| := by
      rw [hk, Numeral.value]
      exact mul_le_mul_of_nonneg_right (by exact_mod_cast htwo) (by positivity)
    have herror := (abs_le.1 (abs_sub_codeOfRat_le_div (abs_nonneg d.value) hnormal)).2
    have hlog : (-28 : Int) ≤ Int.log 10 (valueOfCode (codeOfRat |d.value|)) := by
      refine (Int.zpow_le_iff_le_log (by decide) (valueOfCode_pos hpos)).1 ?_
      have hpow : (0 : ℚ) < 10 ^ (-28 : Int) := by positivity
      push_cast
      linarith
    have hplaces := Shortest.min_le_exponent_numeral Json.floatLayout.tie hpos
      d.codeOfRat_abs_value_lt ((Numeral.code_eq_codeOfRat _).trans (congrArg codeOfRat hk.symm))
    exact .inr (le_trans (le_min le_rfl hlog) hplaces)

theorem shortened_smallest (h : |d.value| = (Numeral.mk 1 (-28)).value) :
    d.shortened.value = |d.value| := by
  have hnumeral : Shortest.numeral Json.floatLayout.tie 0x3a1fb0f6be506019 =
      ⟨1 * tenTo 1, -28 - (1 : Nat)⟩ := by decide +kernel
  rw [shortened, h, codeOfRat_smallest, hnumeral, Numeral.value_shift]

theorem shortened_zero (h : d.value = 0) : d.shortened.value = 0 := by
  rw [shortened, h, abs_zero, codeOfRat_zero, Json.numeral_zero, value_padded, Numeral.value,
    Nat.cast_zero, zero_mul]

theorem readsAs_shortened {x : Finite64} (hcode : x.code = codeOfRat |d.value|) :
    |d.value| = (Numeral.mk 1 (-28)).value ∨
      ReadsAs (Json.floatLayout.render x) (signed x.negative d.shortened.value) := by
  by_cases hzero : d.value = 0
  · rw [shortened_zero hzero]
    rw [hzero, abs_zero, codeOfRat_zero] at hcode
    exact .inr (by simpa [signed] using readsAs_render_zero hcode)
  · have hpos : 0 < x.code.val :=
      hcode ▸ lt_of_lt_of_le (twoTo_pos 52) (le_codeOfRat_abs_value hzero)
    refine (shortened_eq_or_le hzero).imp_right fun hle => ?_
    rw [shortened, ← hcode] at hle ⊢
    exact readsAs_render hpos hle

theorem keeps_smallest {x : Finite64} (hcode : x.code = codeOfRat |d.value|)
    (hsign : d.value = signed x.negative |d.value|)
    (h : |d.value| = (Numeral.mk 1 (-28)).value) :
    ∃ y, read? (Json.floatLayout.render x) = some y ∧ y.value = d.value := by
  obtain ⟨negative, code, hlt⟩ := x
  rw [h, codeOfRat_smallest] at hcode
  obtain rfl : code = 0x3a1fb0f6be506019 := hcode
  refine ⟨_, read?_render_smallest negative, ?_⟩
  rw [hsign, h, value_eq_signed]
  simp [Numeral.value]

/-- A decimal comes back from the text of its nearest number if it is the shortest numeral. -/
theorem keeps_iff {x : Finite64} (hcode : x.code = codeOfRat |d.value|)
    (hsign : d.value = signed x.negative |d.value|) :
    (∃ y, read? (Json.floatLayout.render x) = some y ∧ y.value = d.value) ↔
      d.shortened.value = |d.value| := by
  rcases readsAs_shortened hcode with hsmallest | hreads
  · exact iff_of_true (keeps_smallest hcode hsign hsmallest) (shortened_smallest hsmallest)
  · constructor
    · rintro ⟨y, hy, hvalue⟩
      have hexact := hreads.exact y hy
      rw [hvalue, hsign] at hexact
      exact (signed_inj.1 hexact).symm
    · intro hkept
      obtain ⟨y, hy⟩ := Option.isSome_iff_exists.1 (hreads.holds d (by rw [hkept, ← hsign]))
      refine ⟨y, hy, ?_⟩
      rw [hreads.exact y hy, hkept, ← hsign]

/-! ## Counting digits -/

theorem shortened_of_hasDigits (h : HasDigits 15 |d.value|) : d.shortened.value = |d.value| := by
  by_cases hzero : d.value = 0
  · rw [shortened_zero hzero, hzero, abs_zero]
  · exact Shortest.value_numeral_of_hasDigits _ (abs_pos.2 hzero) h (le_codeOfRat_abs_value hzero)
      d.codeOfRat_abs_value_lt

theorem hasDigits_of_shortened (h : d.shortened.value = |d.value|) : HasDigits 17 |d.value| := by
  by_cases hzero : d.value = 0
  · exact ⟨0, tenTo_pos 17, 0, by simp [hzero, Numeral.value]⟩
  · have hpos := lt_of_lt_of_le (twoTo_pos 52) (le_codeOfRat_abs_value hzero)
    rw [← h]
    exact Shortest.hasDigits_numeral _ hpos d.codeOfRat_abs_value_lt

end Fixed

end Keyset
