import Keyset.Proofs.DoubleValues

/-!
# How many digits a double-precision number has

The search for the shortest numeral starts at the first digit of the number and stops after
seventeen, which always suffice. A numeral of at most fifteen digits is the shortest of its number,
so it can be found again. Longer ones cannot, unless they happen to be the shortest.
-/
namespace Keyset

namespace Numeral

def value (numeral : Numeral) : ℚ := numeral.coefficient * 10 ^ numeral.exponent

theorem code_eq_codeOfRat (numeral : Numeral) : numeral.code = codeOfRat numeral.value := by
  obtain ⟨coefficient, exponent⟩ := numeral
  obtain ⟨places, rfl | rfl⟩ := exponent.eq_nat_or_neg
  · rw [code_of_nonneg]
    exact (codeOfRat_eq one_pos (by simp [value, cast_tenTo])).symm
  · rw [code_neg]
    exact (codeOfRat_eq (tenTo_pos places) (by simp [value, cast_tenTo, div_eq_mul_inv])).symm

theorem value_shift (coefficient zeros : Nat) (exponent : Int) :
    value ⟨coefficient * tenTo zeros, exponent - zeros⟩ = value ⟨coefficient, exponent⟩ := by
  rw [value, value, zpow_sub₀ (by norm_num), zpow_natCast, Nat.cast_mul, cast_tenTo]
  field_simp

theorem exists_value_eq (numeral : Numeral) {exponent : Int} (h : exponent ≤ numeral.exponent) :
    ∃ coefficient, numeral.value = value ⟨coefficient, exponent⟩ := by
  obtain ⟨zeros, hzeros⟩ := Int.eq_ofNat_of_zero_le (sub_nonneg.2 h)
  obtain rfl : exponent = numeral.exponent - zeros := by omega
  exact ⟨_, (value_shift _ zeros _).symm⟩

theorem value_eq_of_near {m k : Nat} {exponent : Int}
    (h : |value ⟨m, exponent⟩ - value ⟨k, exponent⟩| < 10 ^ exponent) :
    value ⟨m, exponent⟩ = value ⟨k, exponent⟩ := by
  have hpow : (0 : ℚ) < 10 ^ exponent := by positivity
  have hdiff : (|(m : ℤ) - k| : ℚ) < 1 := by
    rw [value, value, ← sub_mul, abs_mul, abs_of_pos hpow] at h
    exact (mul_lt_iff_lt_one_left hpow).1 h
  have hsame : (m : ℤ) - k = 0 := Int.abs_lt_one_iff.1 (by exact_mod_cast hdiff)
  rw [value, value, (by omega : m = k)]

theorem value_nonneg (numeral : Numeral) : 0 ≤ numeral.value := by
  rw [value]
  positivity

end Numeral

/-! ## Powers of two and of ten -/

theorem ten_zpow_le_two_zpow {a b : ℤ} (hb : 0 ≤ b) (h : 10 * a ≤ 3 * b) :
    (10 : ℚ) ^ a ≤ 2 ^ b := by
  obtain ⟨k, rfl⟩ := Int.eq_ofNat_of_zero_le hb
  refine (pow_le_pow_iff_left₀ (by positivity) (by positivity) (by decide : 10 ≠ 0)).1 ?_
  calc ((10 : ℚ) ^ a) ^ 10 = 10 ^ (10 * a) := by rw [mul_comm, zpow_mul]; rfl
    _ ≤ 10 ^ (3 * (k : ℤ)) := zpow_le_zpow_right₀ (by norm_num) h
    _ = (10 ^ 3) ^ k := by rw [zpow_mul]; rfl
    _ ≤ (2 ^ 10) ^ k := pow_le_pow_left₀ (by norm_num) (by norm_num) k
    _ = ((2 : ℚ) ^ (k : ℤ)) ^ 10 := by rw [zpow_natCast, pow_right_comm]

theorem two_zpow_le_ten_zpow {a b : ℤ} (hb : 0 ≤ b) (h : 28 * b ≤ 93 * a) :
    (2 : ℚ) ^ b ≤ 10 ^ a := by
  obtain ⟨k, rfl⟩ := Int.eq_ofNat_of_zero_le hb
  refine (pow_le_pow_iff_left₀ (by positivity) (by positivity) (by decide : 93 ≠ 0)).1 ?_
  calc ((2 : ℚ) ^ (k : ℤ)) ^ 93 = (2 ^ 93) ^ k := by rw [zpow_natCast, pow_right_comm]
    _ ≤ (10 ^ 28) ^ k := pow_le_pow_left₀ (by norm_num) (by norm_num) k
    _ = 10 ^ (28 * (k : ℤ)) := by rw [zpow_mul]; rfl
    _ ≤ 10 ^ (93 * a) := zpow_le_zpow_right₀ (by norm_num) h
    _ = ((10 : ℚ) ^ a) ^ 93 := by rw [mul_comm, zpow_mul]; rfl

theorem zpow_le_zpow_neg {x y : ℚ} {a b : ℤ} (hy : 0 < y) (h : y ^ (-b) ≤ x ^ (-a)) (hx : 0 < x) :
    x ^ a ≤ y ^ b := by
  rw [zpow_neg, zpow_neg] at h
  exact (inv_le_inv₀ (zpow_pos hy b) (zpow_pos hx a)).1 h

/-- The estimate of the decimal logarithm from the binary one is not too large ... -/
theorem ten_zpow_estimate_le {bits : Nat} (hbits : bits < 2098) :
    (10 : ℚ) ^ (((bits : Int) - 1075) * 30103 / 100000 - 1) ≤ 2 ^ ((bits : ℤ) - 1074) := by
  by_cases hsign : 1074 ≤ bits
  · exact ten_zpow_le_two_zpow (by omega) (by omega)
  · refine zpow_le_zpow_neg two_pos ?_ (by norm_num)
    exact two_zpow_le_ten_zpow (by omega) (by omega)

/-- ... and too small by four at most. -/
theorem le_ten_zpow_estimate {bits : Nat} (hbits : bits < 2098) :
    (2 : ℚ) ^ ((bits : ℤ) + 1 - 1074) ≤ 10 ^ (((bits : Int) - 1075) * 30103 / 100000 - 1 + 4) := by
  by_cases hsign : 1073 ≤ bits
  · exact two_zpow_le_ten_zpow (by omega) (by omega)
  · refine zpow_le_zpow_neg (by norm_num) ?_ two_pos
    exact ten_zpow_le_two_zpow (by omega) (by omega)

namespace Shortest

theorem reaches_iff (n : Nat) (exponent : Int) :
    reaches n exponent = true ↔ (10 : ℚ) ^ exponent ≤ valueOfCode n := by
  rw [reaches, valueOfCode, le_div_iff₀ (cast_twoTo_pos 1074)]
  split
  · next hsign =>
    obtain ⟨places, rfl⟩ := Int.eq_ofNat_of_zero_le hsign
    rw [decide_eq_true_eq, Int.toNat_natCast, zpow_natCast, ← cast_tenTo]
    norm_cast
  · next hsign =>
    obtain ⟨places, rfl⟩ : ∃ places : Nat, exponent = -places := ⟨exponent.natAbs, by omega⟩
    rw [decide_eq_true_eq, neg_neg, Int.toNat_natCast, zpow_neg, zpow_natCast, ← cast_tenTo,
      inv_mul_le_iff₀ (Nat.cast_pos.2 (tenTo_pos places)), mul_comm (tenTo places : ℚ)]
    norm_cast

/-- The first digit is where the decimal logarithm says. -/
theorem leadingExponent_eq_log {n : Nat} (hpos : 0 < n) (hn : n < infinityCode) :
    leadingExponent n = Int.log 10 (valueOfCode n) := by
  have hunits : unitsOfCode n ≠ 0 := (Nat.zero_le _).trans_lt (unitsOfCode_strictMono hpos) |>.ne'
  have hbits := log2_lt_of_lt_twoTo hunits (unitsOfCode_lt hn)
  have hlow : (2 : ℚ) ^ ((unitsOfCode n).log2 - (1074 : Nat) : ℤ) ≤ valueOfCode n := by
    rw [← twoTo_div_twoTo]
    exact div_le_div_of_nonneg_right (Nat.cast_le.2 (Nat.log2_self_le hunits))
      (cast_twoTo_pos 1074).le
  have hhigh : valueOfCode n < (2 : ℚ) ^ (((unitsOfCode n).log2 + 1 : Nat) - (1074 : Nat) : ℤ) := by
    rw [← twoTo_div_twoTo]
    exact div_lt_div_of_pos_right (Nat.cast_lt.2 Nat.lt_log2_self) (cast_twoTo_pos 1074)
  have hreaches (e : ℤ) : reaches n e = true ↔ e ≤ Int.log 10 (valueOfCode n) :=
    (reaches_iff n e).trans (Int.zpow_le_iff_le_log (by decide) (valueOfCode_pos hpos))
  rw [leadingExponent]
  generalize (unitsOfCode n).log2 = bits at hbits hlow hhigh ⊢
  have hfirst : (((bits : Int) - 1075) * 30103 / 100000 - 1) ≤ Int.log 10 (valueOfCode n) := by
    refine (Int.zpow_le_iff_le_log (by decide) (valueOfCode_pos hpos)).1 (le_trans ?_ hlow)
    exact ten_zpow_estimate_le hbits
  have hlast : Int.log 10 (valueOfCode n) < ((bits : Int) - 1075) * 30103 / 100000 - 1 + 4 := by
    refine (Int.lt_zpow_iff_log_lt (by decide) (valueOfCode_pos hpos)).1 (lt_of_lt_of_le hhigh ?_)
    exact le_ten_zpow_estimate hbits
  simp only [hreaches]
  split_ifs <;> omega

/-! ## The numerals of one exponent -/

variable {tie : Tie} {n : Nat} {exponent : Int}

theorem grid_div (n : Nat) (exponent : Int) :
    (if 0 ≤ exponent then unitsOfCode n else unitsOfCode n * tenTo (-exponent).toNat) /
      (if 0 ≤ exponent then twoTo 1074 * tenTo exponent.toNat else twoTo 1074) =
    ⌊valueOfCode n / 10 ^ exponent⌋₊ := by
  split
  · next hsign =>
    obtain ⟨places, rfl⟩ := Int.eq_ofNat_of_zero_le hsign
    rw [Int.toNat_natCast, zpow_natCast, ← cast_tenTo, valueOfCode, div_div, ← Nat.cast_mul,
      Nat.floor_div_eq_div]
  · next hsign =>
    obtain ⟨places, rfl⟩ : ∃ places : Nat, exponent = -places := ⟨exponent.natAbs, by omega⟩
    rw [neg_neg, Int.toNat_natCast, zpow_neg, zpow_natCast, ← cast_tenTo, valueOfCode,
      div_inv_eq_mul, div_mul_eq_mul_div, ← Nat.cast_mul, Nat.floor_div_eq_div]

def neighbour (n : Nat) (exponent : Int) (above : Bool) : Numeral :=
  ⟨⌊valueOfCode n / 10 ^ exponent⌋₊ + above.toNat, exponent⟩

theorem onGrid_eq_some {numeral : Numeral} (h : onGrid tie n exponent = some numeral) :
    ∃ above, numeral = neighbour n exponent above := by
  have hdiv := grid_div n exponent
  simp only [onGrid] at h
  generalize (if 0 ≤ exponent then unitsOfCode n
    else unitsOfCode n * tenTo (-exponent).toNat) = num at h hdiv
  generalize (if 0 ≤ exponent then twoTo 1074 * tenTo exponent.toNat
    else twoTo 1074) = den at h hdiv
  rw [hdiv] at h
  split at h
  · split at h
    · exact ⟨false, (Option.some.inj h).symm⟩
    · exact ⟨true, (Option.some.inj h).symm⟩
  · exact ⟨false, (Option.some.inj h).symm⟩
  · exact ⟨true, (Option.some.inj h).symm⟩
  · cases h

theorem onGrid_isSome_of_neighbour (tie : Tie) (above : Bool)
    (h : (neighbour n exponent above).code = n) : (onGrid tie n exponent).isSome := by
  simp only [onGrid, grid_div]
  split
  · rfl
  · rfl
  · rfl
  · next hbelow habove =>
    cases above with
    | false =>
      rw [neighbour, Bool.toNat_false, Nat.add_zero] at h
      exact absurd h (beq_eq_false_iff_ne.1 hbelow)
    | true =>
      rw [neighbour, Bool.toNat_true] at h
      exact absurd h (beq_eq_false_iff_ne.1 habove)

theorem neighbour_false_le (n : Nat) (exponent : Int) :
    (neighbour n exponent false).value ≤ valueOfCode n := by
  have hpow : (0 : ℚ) < 10 ^ exponent := by positivity
  have hfloor := Nat.floor_le (div_nonneg (valueOfCode_nonneg n) hpow.le)
  exact (le_div_iff₀ hpow).1 hfloor

theorem lt_neighbour_true (n : Nat) (exponent : Int) :
    valueOfCode n < (neighbour n exponent true).value := by
  have hpow : (0 : ℚ) < 10 ^ exponent := by positivity
  have hfloor := Nat.lt_floor_add_one (valueOfCode n / 10 ^ exponent)
  have hvalue := (div_lt_iff₀ hpow).1 hfloor
  rwa [← Nat.cast_add_one] at hvalue

theorem value_mono {m k : Nat} (exponent : Int) (h : m ≤ k) :
    (Numeral.mk m exponent).value ≤ (Numeral.mk k exponent).value :=
  mul_le_mul_of_nonneg_right (Nat.cast_le.2 h) (by positivity)

/-- A numeral of a number is found on its grid, or one that is nearer. -/
theorem onGrid_isSome (tie : Tie) {coefficient : Nat}
    (h : (Numeral.mk coefficient exponent).code = n) : (onGrid tie n exponent).isSome := by
  have hlow := neighbour_false_le n exponent
  have hhigh := lt_neighbour_true n exponent
  have hself := codeOfRat_valueOfCode n
  rw [Numeral.code_eq_codeOfRat] at h
  by_cases hle : coefficient ≤ ⌊valueOfCode n / 10 ^ exponent⌋₊
  · have hvalue : (Numeral.mk coefficient exponent).value ≤ (neighbour n exponent false).value :=
      value_mono exponent hle
    refine onGrid_isSome_of_neighbour tie false ?_
    rw [Numeral.code_eq_codeOfRat]
    exact le_antisymm ((codeOfRat_mono hlow).trans_eq hself) (h.ge.trans (codeOfRat_mono hvalue))
  · have hvalue : (neighbour n exponent true).value ≤ (Numeral.mk coefficient exponent).value :=
      value_mono exponent (not_le.1 hle)
    refine onGrid_isSome_of_neighbour tie true ?_
    rw [Numeral.code_eq_codeOfRat]
    exact le_antisymm ((codeOfRat_mono hvalue).trans_eq h)
      (hself.ge.trans (codeOfRat_mono hhigh.le))

/-- Seventeen digits are close enough to any number. -/
theorem onGrid_log_isSome (tie : Tie) (hpos : 0 < n) :
    (onGrid tie n (Int.log 10 (valueOfCode n) - 16)).isSome := by
  have hlog : (10 : ℚ) ^ Int.log 10 (valueOfCode n) ≤ valueOfCode n :=
    Int.zpow_log_le_self (by decide) (valueOfCode_pos hpos)
  have hgrid : (10 : ℚ) ^ (Int.log 10 (valueOfCode n) - 16) * 10 ^ 16 ≤ valueOfCode n := by
    rw [← zpow_natCast, ← zpow_add₀ (by norm_num)]
    simpa using hlog
  generalize Int.log 10 (valueOfCode n) - 16 = exponent at hgrid ⊢
  have hpow : (0 : ℚ) < 10 ^ exponent := by positivity
  have hquotient := div_nonneg (valueOfCode_nonneg n) hpow.le
  have hcancel := div_mul_cancel₀ (valueOfCode n) hpow.ne'
  -- The nearest numeral of the grid is off by half of a place.
  have hlow := Nat.floor_le (add_nonneg hquotient one_half_pos.le)
  have hhigh := Nat.lt_floor_add_one (valueOfCode n / 10 ^ exponent + 1 / 2)
  generalize ⌊valueOfCode n / 10 ^ exponent + 1 / 2⌋₊ = coefficient at hlow hhigh
  have hnear : |(Numeral.mk coefficient exponent).value - valueOfCode n| ≤
      1 / 2 * 10 ^ exponent := by
    have hdiff : (Numeral.mk coefficient exponent).value - valueOfCode n =
        (coefficient - valueOfCode n / 10 ^ exponent) * 10 ^ exponent := by
      rw [sub_mul, hcancel]
      rfl
    rw [hdiff, abs_mul, abs_of_pos hpow]
    exact mul_le_mul_of_nonneg_right (abs_le.2 ⟨by linarith, by linarith⟩) hpow.le
  refine onGrid_isSome tie ((Numeral.code_eq_codeOfRat _).trans
    (codeOfRat_eq_of_near (Numeral.value_nonneg _) (hnear.trans_lt ?_)))
  linarith

/-! ## The shortest numeral -/

/-- The numeral is found after at most seventeen digits, and not before. -/
theorem exists_onGrid_numeral (tie : Tie) (hpos : 0 < n) (hn : n < infinityCode) : ∃ more ≤ 16,
    onGrid tie n (Int.log 10 (valueOfCode n) - (more : Nat)) = some (numeral tie n) ∧
      ∀ fewer < more, onGrid tie n (Int.log 10 (valueOfCode n) - (fewer : Nat)) = none := by
  have hlast : (onGrid tie n (Int.log 10 (valueOfCode n) - (16 : Nat))).isSome :=
    onGrid_log_isSome tie hpos
  rw [numeral, leadingExponent_eq_log hpos hn]
  generalize Int.log 10 (valueOfCode n) = first at hlast
  cases hfound : (List.range 17).findSome? fun (more : Nat) =>
      onGrid tie n (first - (more : Int)) with
  | none =>
    rw [List.findSome?_eq_none_iff] at hfound
    rw [hfound 16 (List.mem_range.2 (by decide))] at hlast
    cases hlast
  | some found =>
    obtain ⟨before, more, after, hrange, hmore, hnone⟩ := List.findSome?_eq_some_iff.1 hfound
    rw [List.range_eq_range', List.range'_eq_append_iff] at hrange
    obtain ⟨k, hk, rfl, hafter⟩ := hrange
    obtain ⟨rfl, hlt, -⟩ := List.range'_eq_cons_iff.1 hafter.symm
    refine ⟨_, by omega, hmore, fun fewer hfewer => hnone fewer ?_⟩
    rw [List.mem_range'_1]
    omega

theorem exponent_of_onGrid {numeral : Numeral} (h : onGrid tie n exponent = some numeral) :
    numeral.exponent = exponent := by
  obtain ⟨above, rfl⟩ := onGrid_eq_some h
  rfl

theorem min_le_exponent_numeral (tie : Tie) (hpos : 0 < n) (hn : n < infinityCode)
    {coefficient : Nat} (hcode : (Numeral.mk coefficient exponent).code = n) :
    min exponent (Int.log 10 (valueOfCode n)) ≤ (numeral tie n).exponent := by
  obtain ⟨more, -, hmore, hnone⟩ := exists_onGrid_numeral tie hpos hn
  rw [exponent_of_onGrid hmore]
  generalize Int.log 10 (valueOfCode n) = first at hnone ⊢
  by_contra hlt
  -- With zeros at its end, the numeral is on a grid that was searched before.
  obtain ⟨zeros, hzeros⟩ := Int.eq_ofNat_of_zero_le (sub_nonneg.2 (min_le_left exponent first))
  obtain ⟨fewer, hfewer⟩ := Int.eq_ofNat_of_zero_le (sub_nonneg.2 (min_le_right exponent first))
  have hshift := Numeral.code_shift coefficient zeros exponent
  have hgrid : exponent - zeros = first - fewer := by omega
  rw [hcode, hgrid] at hshift
  have hfound := onGrid_isSome tie hshift
  rw [hnone fewer (by omega)] at hfound
  cases hfound

/-- Written with at most so many digits, apart from zeros at either end. -/
def HasDigits (count : Nat) (x : ℚ) : Prop :=
  ∃ coefficient < tenTo count, ∃ exponent, x = (Numeral.mk coefficient exponent).value

theorem neighbour_le (n more : Nat) (above : Bool) :
    (neighbour n (Int.log 10 (valueOfCode n) - more) above).coefficient ≤ tenTo (more + 1) := by
  have hlog : valueOfCode n < (10 : ℚ) ^ (Int.log 10 (valueOfCode n) + 1) :=
    Int.lt_zpow_succ_log_self (by decide) (valueOfCode n)
  have hsplit : (tenTo (more + 1) : ℚ) * 10 ^ (Int.log 10 (valueOfCode n) - more) =
      10 ^ (Int.log 10 (valueOfCode n) + 1) := by
    rw [cast_tenTo, ← zpow_natCast, ← zpow_add₀ (by norm_num)]
    congr 1
    omega
  have hlt : ⌊valueOfCode n / 10 ^ (Int.log 10 (valueOfCode n) - more)⌋₊ < tenTo (more + 1) := by
    rw [Nat.floor_lt (div_nonneg (valueOfCode_nonneg n) (by positivity)),
      div_lt_iff₀ (by positivity), hsplit]
    exact hlog
  exact (Nat.add_le_add_left above.toNat_le _).trans hlt

theorem coefficient_numeral_le (tie : Tie) (hpos : 0 < n) (hn : n < infinityCode) :
    (numeral tie n).coefficient ≤ tenTo 17 := by
  obtain ⟨more, hmore17, hmore, -⟩ := exists_onGrid_numeral tie hpos hn
  obtain ⟨above, hnumeral⟩ := onGrid_eq_some hmore
  rw [hnumeral]
  exact (neighbour_le n more above).trans (tenTo_le_tenTo (Nat.succ_le_succ hmore17))

theorem hasDigits_numeral (tie : Tie) (hpos : 0 < n) (hn : n < infinityCode) :
    HasDigits 17 (numeral tie n).value := by
  have hle := coefficient_numeral_le tie hpos hn
  generalize numeral tie n = found at hle
  obtain ⟨coefficient, exponent⟩ := found
  rcases Nat.lt_or_eq_of_le hle with hlt | heq
  · exact ⟨coefficient, hlt, exponent, rfl⟩
  · -- A one and seventeen zeros.
    obtain rfl : coefficient = tenTo 17 := heq
    have hshift := Numeral.value_shift 1 17 (exponent + (17 : Nat))
    rw [add_sub_cancel_right, Nat.one_mul] at hshift
    exact ⟨1, by decide, exponent + (17 : Nat), hshift⟩

theorem div_lt_zpow_min_log (hlast : valueOfCode n / 2 ^ 52 < 10 ^ exponent) :
    valueOfCode n / 2 ^ 52 < 10 ^ min exponent (Int.log 10 (valueOfCode n)) := by
  have hfirst : valueOfCode n < 10 ^ (Int.log 10 (valueOfCode n) + 1) :=
    Int.lt_zpow_succ_log_self (by decide) _
  rw [zpow_add_one₀ (by norm_num)] at hfirst
  rcases min_choice exponent (Int.log 10 (valueOfCode n)) with hmin | hmin
  · rwa [hmin]
  · have hpow : (0 : ℚ) < 10 ^ Int.log 10 (valueOfCode n) := by positivity
    rw [hmin]
    linarith

/-- A number is its own shortest numeral if its last digit shows in spite of rounding. -/
theorem value_numeral_of_lt (tie : Tie) {x : ℚ} (hx : 0 ≤ x) {coefficient : Nat}
    (hvalue : x = (Numeral.mk coefficient exponent).value) (hnormal : twoTo 52 ≤ codeOfRat x)
    (hfinite : codeOfRat x < infinityCode)
    (hlast : valueOfCode (codeOfRat x) / 2 ^ 52 < 10 ^ exponent) :
    (numeral tie (codeOfRat x)).value = x := by
  have hpos : 0 < codeOfRat x := lt_of_lt_of_le (twoTo_pos 52) hnormal
  have hcode := Numeral.code_eq_codeOfRat (numeral tie (codeOfRat x))
  rw [code_numeral] at hcode
  have herror := abs_sub_codeOfRat_le_div hx hnormal
  have herror' := abs_sub_codeOfRat_le_div (Numeral.value_nonneg (numeral tie (codeOfRat x)))
    (hcode ▸ hnormal)
  rw [← hcode] at herror'
  -- Both numerals are on the grid of the smaller exponent, if not that of the first digit.
  have hplaces := min_le_exponent_numeral tie hpos hfinite
    ((Numeral.code_eq_codeOfRat _).trans (congrArg codeOfRat hvalue.symm))
  obtain ⟨other, hother⟩ := Numeral.exists_value_eq _ hplaces
  obtain ⟨same, hsame⟩ := Numeral.exists_value_eq ⟨coefficient, exponent⟩
    (min_le_left exponent (Int.log 10 (valueOfCode (codeOfRat x))))
  have hmin := div_lt_zpow_min_log hlast
  calc (numeral tie (codeOfRat x)).value = _ := hother
    _ = _ := Numeral.value_eq_of_near (by
      rw [← hother, ← hsame, ← hvalue]
      have htriangle := abs_sub_le (numeral tie (codeOfRat x)).value (valueOfCode (codeOfRat x)) x
      rw [abs_sub_comm (valueOfCode (codeOfRat x)) x] at htriangle
      linarith)
    _ = x := hsame.symm.trans hvalue.symm

/-- Numbers of fifteen digits are found again. -/
theorem value_numeral_of_hasDigits (tie : Tie) {x : ℚ} (hx : 0 < x) (hdigits : HasDigits 15 x)
    (hnormal : twoTo 52 ≤ codeOfRat x) (hfinite : codeOfRat x < infinityCode) :
    (numeral tie (codeOfRat x)).value = x := by
  have hlog : (10 : ℚ) ^ Int.log 10 x ≤ x := Int.zpow_log_le_self (by decide) hx
  have hlog' : x < (10 : ℚ) ^ (Int.log 10 x + 1) := Int.lt_zpow_succ_log_self (by decide) x
  have herror := abs_le.1 (abs_sub_codeOfRat_le_div hx.le hnormal)
  have hscale : (10 : ℚ) ^ (Int.log 10 x + 1) = 10 ^ 15 * 10 ^ (Int.log 10 x - 14) := by
    rw [← zpow_natCast, ← zpow_add₀ (by norm_num)]
    congr 1
    omega
  -- The fifteenth digit from the first is the last one, or there are zeros up to it.
  have hplace : ∃ coefficient, x = (Numeral.mk coefficient (Int.log 10 x - 14)).value := by
    obtain ⟨coefficient, hlt, exponent, hvalue⟩ := hdigits
    have hhigh : x < 10 ^ (15 + exponent) := by
      rw [hvalue, Numeral.value, zpow_add₀ (by norm_num)]
      exact mul_lt_mul_of_pos_right (by exact_mod_cast hlt) (by positivity)
    have hfirst := (zpow_lt_zpow_iff_right₀ (by norm_num)).1 (hlog.trans_lt hhigh)
    obtain ⟨other, hother⟩ := Numeral.exists_value_eq ⟨coefficient, exponent⟩
      (by omega : Int.log 10 x - 14 ≤ exponent)
    exact ⟨other, hvalue.trans hother⟩
  obtain ⟨coefficient, hvalue⟩ := hplace
  exact value_numeral_of_lt tie hx.le hvalue hnormal hfinite (by linarith [herror.1])

end Shortest

end Keyset
