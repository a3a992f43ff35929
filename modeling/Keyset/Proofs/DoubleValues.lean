import Keyset.Proofs.RoundedIntegers

/-!
# What double-precision numbers stand for

The magnitudes of codes are rational numbers that grow with the code, and neighbours among them
differ by the last of 53 bits at least. The code of a rational number is that of the nearest
magnitude, so rounding changes half of that bit at most, and whatever is closer to a magnitude than
that has its code.
-/
namespace Keyset

/-- The magnitude that a code stands for. -/
def valueOfCode (code : Nat) : ℚ := unitsOfCode code / twoTo 1074

/-- The code of a rational number, which is nearest to it. -/
def codeOfRat (x : ℚ) : Nat := codeOfRatio x.num.toNat x.den

theorem cast_twoTo (n : Nat) : (twoTo n : ℚ) = 2 ^ n := Nat.cast_pow 2 n

theorem cast_tenTo (n : Nat) : (tenTo n : ℚ) = 10 ^ n := Nat.cast_pow 10 n

theorem cast_twoTo_pos (n : Nat) : (0 : ℚ) < twoTo n := Nat.cast_pos.2 (twoTo_pos n)

theorem twoTo_div_twoTo (k m : Nat) : (twoTo k : ℚ) / twoTo m = 2 ^ ((k : ℤ) - m) := by
  rw [cast_twoTo, cast_twoTo, zpow_sub₀ two_ne_zero, zpow_natCast, zpow_natCast]

theorem log2_lt_of_lt_twoTo {m k : Nat} (hne : m ≠ 0) (h : m < twoTo k) : m.log2 < k :=
  (Nat.log2_lt hne).2 h

/-! ## Codes of rational numbers -/

theorem codeOfRatio_le_codeOfRatio {m n d e : Nat} (hd : 0 < d) (he : 0 < e) (h : m * e ≤ n * d) :
    codeOfRatio m d ≤ codeOfRatio n e := by
  rw [← codeOfRatio_mul m d he, ← codeOfRatio_mul n e hd, Nat.mul_comm e d]
  exact codeOfRatio_mono h (d * e)

theorem codeOfRatio_congr {m n d e : Nat} (hd : 0 < d) (he : 0 < e) (h : m * e = n * d) :
    codeOfRatio m d = codeOfRatio n e :=
  le_antisymm (codeOfRatio_le_codeOfRatio hd he h.le) (codeOfRatio_le_codeOfRatio he hd h.ge)

theorem codeOfRat_eq {x : ℚ} {num den : Nat} (hden : 0 < den) (hx : x = num / den) :
    codeOfRat x = codeOfRatio num den := by
  have hnonneg : 0 ≤ x.num := Rat.num_nonneg.2 (hx ▸ by positivity)
  have hcross := (Rat.num_div_den x).trans hx
  rw [div_eq_div_iff (by exact_mod_cast x.den_pos.ne') (by exact_mod_cast hden.ne')] at hcross
  refine codeOfRatio_congr x.den_pos hden ?_
  zify
  rw [Int.toNat_of_nonneg hnonneg]
  exact_mod_cast hcross

theorem codeOfRat_zero : codeOfRat 0 = 0 :=
  (codeOfRat_eq one_pos (by simp)).trans (codeOfRatio_zero one_pos)

theorem codeOfRat_mono : Monotone codeOfRat := by
  intro x y h
  refine codeOfRatio_le_codeOfRatio x.den_pos y.den_pos ?_
  have hcross := (Rat.le_iff x y).1 h
  by_cases hx : x.num ≤ 0
  · rw [Int.toNat_of_nonpos hx, Nat.zero_mul]
    exact Nat.zero_le _
  · have hy : 0 ≤ y.num := Rat.num_nonneg.2 (le_trans (Rat.num_nonneg.1 (not_le.1 hx).le) h)
    zify
    rwa [Int.toNat_of_nonneg (not_le.1 hx).le, Int.toNat_of_nonneg hy]

theorem codeOfRat_valueOfCode (n : Nat) : codeOfRat (valueOfCode n) = n := by
  rw [codeOfRat_eq (x := valueOfCode n) (twoTo_pos 1074) rfl, codeOfRatio_unitsOfCode]

/-! ## Neighbours -/

theorem zero_or_le_div_twoTo {units shift : Nat} (h : units.log2 - 52 = shift) :
    shift = 0 ∨ twoTo 52 ≤ units / twoTo shift := by
  by_cases hzero : shift = 0
  · exact .inl hzero
  · exact .inr (le_div_twoTo (by omega))

theorem unitsOfCode_significand {shift significand : Nat} (hle : significand ≤ twoTo 53)
    (hnormal : shift = 0 ∨ twoTo 52 ≤ significand) :
    unitsOfCode (shift * twoTo 52 + significand) = significand * twoTo shift := by
  by_cases hsmall : significand < twoTo 52
  · obtain rfl : shift = 0 := hnormal.resolve_right (not_le.2 hsmall)
    simp [unitsOfCode, hsmall]
  · obtain ⟨bits, rfl⟩ := Nat.exists_eq_add_of_le (not_lt.1 hsmall)
    rw [twoTo_succ 52] at hle
    by_cases hlast : bits = twoTo 52
    · -- One more than 53 ones is the first significand of the next shift.
      have hcode : shift * twoTo 52 + (twoTo 52 + bits) = twoTo 52 * (shift + 1 + 1) + 0 := by
        rw [hlast]
        ring
      rw [hcode, unitsOfCode_normal (twoTo_pos 52), twoTo_succ shift, hlast]
      ring
    · have hcode : shift * twoTo 52 + (twoTo 52 + bits) = twoTo 52 * (shift + 1) + bits := by ring
      rw [hcode, unitsOfCode_normal (by omega)]

theorem unitsOfCode_significand_succ {shift significand : Nat} (hlt : significand < twoTo 53)
    (hnormal : shift = 0 ∨ twoTo 52 ≤ significand) :
    unitsOfCode (shift * twoTo 52 + significand + 1) = (significand + 1) * twoTo shift := by
  rw [Nat.add_assoc]
  exact unitsOfCode_significand hlt (hnormal.imp_right Nat.le_succ_of_le)

/-- The place of the last bit of a magnitude. -/
def shiftOf (n : Nat) : Nat := (unitsOfCode n).log2 - 52

theorem exists_significand (n : Nat) : ∃ significand, significand < twoTo 53 ∧
    (shiftOf n = 0 ∨ twoTo 52 ≤ significand) ∧ unitsOfCode n = significand * twoTo (shiftOf n) ∧
    shiftOf n * twoTo 52 + significand = n := by
  obtain ⟨shift, significand, hunits, hshift, hcode⟩ := unitsOfCode_spec n
  have hexact : unitsOfCode n / twoTo shift = significand := by
    rw [hunits, Nat.mul_div_cancel _ (twoTo_pos shift)]
  rw [shiftOf, hshift]
  exact ⟨significand, hexact ▸ div_twoTo_lt hshift, hexact ▸ zero_or_le_div_twoTo hshift, hunits,
    hcode⟩

theorem unitsOfCode_succ (n : Nat) :
    unitsOfCode (n + 1) = unitsOfCode n + twoTo (shiftOf n) := by
  obtain ⟨significand, hlt, hnormal, hunits, hcode⟩ := exists_significand n
  have hnext := unitsOfCode_significand_succ hlt hnormal
  rwa [hcode, Nat.add_one_mul, ← hunits] at hnext

theorem unitsOfCode_strictMono : StrictMono unitsOfCode := by
  refine strictMono_nat_of_lt_succ fun n => ?_
  rw [unitsOfCode_succ]
  exact Nat.lt_add_of_pos_right (twoTo_pos _)

theorem valueOfCode_strictMono : StrictMono valueOfCode := fun _ _ h =>
  div_lt_div_of_pos_right (Nat.cast_lt.2 (unitsOfCode_strictMono h)) (cast_twoTo_pos 1074)

theorem valueOfCode_nonneg (n : Nat) : 0 ≤ valueOfCode n :=
  div_nonneg (Nat.cast_nonneg _) (cast_twoTo_pos 1074).le

theorem valueOfCode_pos {n : Nat} (hpos : 0 < n) : 0 < valueOfCode n :=
  (valueOfCode_nonneg 0).trans_lt (valueOfCode_strictMono hpos)

theorem unitsOfCode_lt {n : Nat} (hn : n < infinityCode) : unitsOfCode n < twoTo (52 + 2046) := by
  have htop : unitsOfCode infinityCode = (twoTo 52 + 0) * twoTo 2046 :=
    unitsOfCode_normal (twoTo_pos 52) 2046
  calc unitsOfCode n < unitsOfCode infinityCode := unitsOfCode_strictMono hn
    _ = twoTo (52 + 2046) := by rw [htop, Nat.add_zero, ← twoTo_add]

def lastBit (n : Nat) : ℚ := twoTo (shiftOf n) / twoTo 1074

theorem valueOfCode_succ (n : Nat) : valueOfCode (n + 1) = valueOfCode n + lastBit n := by
  rw [valueOfCode, unitsOfCode_succ, Nat.cast_add, add_div]
  rfl

/-- There are no more than 53 bits down to the last one. -/
theorem valueOfCode_succ_le (n : Nat) : valueOfCode (n + 1) ≤ 2 ^ 53 * lastBit n := by
  obtain ⟨significand, hlt, -, hunits, -⟩ := exists_significand n
  have hle : unitsOfCode (n + 1) ≤ twoTo 53 * twoTo (shiftOf n) := by
    rw [unitsOfCode_succ, hunits, ← Nat.succ_mul]
    exact Nat.mul_le_mul_right _ hlt
  rw [lastBit, ← mul_div_assoc, ← cast_twoTo, valueOfCode]
  exact div_le_div_of_nonneg_right (by exact_mod_cast hle) (cast_twoTo_pos 1074).le

/-- A normal magnitude has 53 bits. -/
theorem lastBit_le {n : Nat} (hn : twoTo 52 ≤ n) : 2 ^ 52 * lastBit n ≤ valueOfCode n := by
  obtain ⟨significand, -, hnormal, hunits, hcode⟩ := exists_significand n
  have hle : twoTo 52 ≤ significand := by
    rcases hnormal with hzero | hle
    · rw [hzero, Nat.zero_mul, Nat.zero_add] at hcode
      rwa [hcode]
    · exact hle
  rw [lastBit, ← mul_div_assoc, ← cast_twoTo, valueOfCode, hunits]
  exact div_le_div_of_nonneg_right (by exact_mod_cast Nat.mul_le_mul_right _ hle)
    (cast_twoTo_pos 1074).le

/-- Different magnitudes differ in the 53rd bit at least. -/
theorem div_le_abs_valueOfCode_sub {k n : Nat} (h : k ≠ n) :
    valueOfCode n / 2 ^ 53 ≤ |valueOfCode k - valueOfCode n| := by
  rcases Nat.lt_or_gt_of_ne h with hlt | hgt
  · obtain ⟨below, rfl⟩ : ∃ below, n = below + 1 := ⟨n - 1, by omega⟩
    have hle := valueOfCode_strictMono.monotone (Nat.le_of_lt_succ hlt)
    have hlast := valueOfCode_succ_le below
    have hsucc := valueOfCode_succ below
    rw [div_le_iff₀ (by norm_num), abs_sub_comm, mul_comm]
    refine hlast.trans (mul_le_mul_of_nonneg_left (le_trans ?_ (le_abs_self _)) (by norm_num))
    linarith
  · have hle := valueOfCode_strictMono.monotone (Nat.succ_le_of_lt hgt)
    have hlast := valueOfCode_succ_le n
    have hsucc := valueOfCode_succ n
    have hnext := valueOfCode_strictMono.monotone (Nat.le_succ n)
    rw [div_le_iff₀ (by norm_num), mul_comm]
    refine (hnext.trans hlast).trans
      (mul_le_mul_of_nonneg_left (le_trans ?_ (le_abs_self _)) (by norm_num))
    rw [Nat.succ_eq_add_one] at hle
    linarith

/-! ## The nearest magnitude -/

theorem nearerCode_cases (below excess gap : Nat) :
    nearerCode below excess gap = below ∧ excess ≤ gap ∨
      nearerCode below excess gap = below + 1 ∧ gap ≤ excess := by
  rw [nearerCode]
  split
  · next h => exact .inl ⟨rfl, h.elim (fun hlt => hlt.le) fun heq => heq.1.le⟩
  · next h => exact .inr ⟨rfl, not_lt.1 fun hlt => h (.inl hlt)⟩

/-- The two neighbours between which a fraction lies, counted in smallest numbers. -/
theorem exists_unitsOfCode_le (num : Nat) {den : Nat} (hden : 0 < den) : ∃ below,
    unitsOfCode below * den ≤ num * twoTo 1074 ∧
    num * twoTo 1074 ≤ unitsOfCode (below + 1) * den ∧
    (codeOfRatio num den = below ∧
        2 * (num * twoTo 1074) ≤ (unitsOfCode below + unitsOfCode (below + 1)) * den ∨
      codeOfRatio num den = below + 1 ∧
        (unitsOfCode below + unitsOfCode (below + 1)) * den ≤ 2 * (num * twoTo 1074)) := by
  have hcode : codeOfRatio num den = _ := codeOfRatio_eq rfl rfl
  have hround := Nat.div_mul_le_self (num * twoTo 1074) den
  have hround' := Nat.lt_mul_of_div_lt (Nat.lt_succ_self (num * twoTo 1074 / den)) hden
  generalize num * twoTo 1074 = scaled at hcode hround hround' ⊢
  have hbits : scaled / den / twoTo ((scaled / den).log2 - 52) < twoTo 53 := div_twoTo_lt rfl
  have hnormal : (scaled / den).log2 - 52 = 0 ∨ _ := zero_or_le_div_twoTo rfl
  generalize (scaled / den).log2 - 52 = shift at hcode hbits hnormal
  have hcut := Nat.div_mul_le_self (scaled / den) (twoTo shift)
  have hcut' := Nat.lt_mul_of_div_lt (Nat.lt_succ_self (scaled / den / twoTo shift))
    (twoTo_pos shift)
  generalize scaled / den / twoTo shift = significand at hcode hbits hnormal hcut hcut'
  have hbelow := unitsOfCode_significand hbits.le hnormal
  have habove := unitsOfCode_significand_succ hbits hnormal
  generalize shift * twoTo 52 + significand = below at hcode hbelow habove
  have hlow : significand * twoTo shift * den ≤ scaled :=
    (Nat.mul_le_mul_right den hcut).trans hround
  have hhigh : scaled ≤ (significand + 1) * twoTo shift * den :=
    hround'.le.trans (Nat.mul_le_mul_right den hcut')
  refine ⟨below, hbelow ▸ hlow, habove ▸ hhigh, ?_⟩
  rw [hcode, hbelow, habove]
  have hmid : (significand * twoTo shift + (significand + 1) * twoTo shift) * den =
      2 * (significand * twoTo shift * den) + twoTo shift * den := by ring
  rw [hmid]
  exact (nearerCode_cases below _ _).imp (fun h => ⟨h.1, by omega⟩) fun h => ⟨h.1, by omega⟩

theorem valueOfCode_mul (n den : Nat) :
    valueOfCode n * (den * twoTo 1074) = (unitsOfCode n * den : Nat) := by
  rw [valueOfCode, mul_comm (den : ℚ), ← mul_assoc, div_mul_cancel₀ _ (cast_twoTo_pos 1074).ne',
    Nat.cast_mul]

theorem mul_den_mul_twoTo {x : ℚ} (hx : 0 ≤ x) :
    x * (x.den * twoTo 1074) = (x.num.toNat * twoTo 1074 : Nat) := by
  have hnum : (x.num.toNat : ℚ) = x.num :=
    mod_cast Int.toNat_of_nonneg (Rat.num_nonneg.2 hx)
  rw [Nat.cast_mul, hnum, ← mul_assoc, Rat.mul_den_eq_num]

/-- The two neighbours between which a number lies. -/
theorem exists_valueOfCode_le {x : ℚ} (hx : 0 ≤ x) : ∃ below,
    valueOfCode below ≤ x ∧ x ≤ valueOfCode (below + 1) ∧
    (codeOfRat x = below ∧ 2 * x ≤ valueOfCode below + valueOfCode (below + 1) ∨
      codeOfRat x = below + 1 ∧ valueOfCode below + valueOfCode (below + 1) ≤ 2 * x) := by
  obtain ⟨below, hlow, hhigh, hnearer⟩ := exists_unitsOfCode_le x.num.toNat x.den_pos
  have hscale : (0 : ℚ) < x.den * twoTo 1074 :=
    mul_pos (Nat.cast_pos.2 x.den_pos) (cast_twoTo_pos 1074)
  have hvalue := mul_den_mul_twoTo hx
  have htwice : 2 * x * (x.den * twoTo 1074) = (2 * (x.num.toNat * twoTo 1074) : Nat) := by
    rw [mul_assoc, hvalue, Nat.cast_mul 2, Nat.cast_two]
  have hsum : (valueOfCode below + valueOfCode (below + 1)) * (x.den * twoTo 1074) =
      ((unitsOfCode below + unitsOfCode (below + 1)) * x.den : Nat) := by
    rw [add_mul, valueOfCode_mul, valueOfCode_mul, Nat.add_mul, Nat.cast_add]
  refine ⟨below, ?_, ?_, hnearer.imp (And.imp_right fun hmid => ?_) (And.imp_right fun hmid => ?_)⟩
    <;> refine le_of_mul_le_mul_right ?_ hscale
  · rw [valueOfCode_mul, hvalue]
    exact Nat.cast_le.2 hlow
  · rw [valueOfCode_mul, hvalue]
    exact Nat.cast_le.2 hhigh
  · rw [htwice, hsum]
    exact Nat.cast_le.2 hmid
  · rw [htwice, hsum]
    exact Nat.cast_le.2 hmid

/-- A number is no farther from its own magnitude than from either neighbour. -/
theorem exists_codeOfRat {x : ℚ} (hx : 0 ≤ x) : ∃ below,
    (codeOfRat x = below ∨ codeOfRat x = below + 1) ∧
    |x - valueOfCode (codeOfRat x)| ≤ x - valueOfCode below ∧
    |x - valueOfCode (codeOfRat x)| ≤ valueOfCode (below + 1) - x := by
  obtain ⟨below, hlow, hhigh, hnearer⟩ := exists_valueOfCode_le hx
  refine ⟨below, hnearer.imp And.left And.left, ?_⟩
  rcases hnearer with ⟨hcode, hmid⟩ | ⟨hcode, hmid⟩
  · rw [hcode, abs_of_nonneg (sub_nonneg.2 hlow)]
    exact ⟨le_rfl, by linarith⟩
  · rw [hcode, abs_sub_comm, abs_of_nonneg (sub_nonneg.2 hhigh)]
    exact ⟨by linarith, le_rfl⟩

theorem abs_sub_codeOfRat_le {x : ℚ} (hx : 0 ≤ x) (k : Nat) :
    |x - valueOfCode (codeOfRat x)| ≤ |x - valueOfCode k| := by
  obtain ⟨below, -, hlow, hhigh⟩ := exists_codeOfRat hx
  rcases Nat.lt_or_ge below k with hlt | hge
  · have hk : valueOfCode (below + 1) ≤ valueOfCode k := valueOfCode_strictMono.monotone hlt
    have habs := neg_le_abs (x - valueOfCode k)
    linarith
  · have hk := valueOfCode_strictMono.monotone hge
    have habs := le_abs_self (x - valueOfCode k)
    linarith

/-- A number that is close to a magnitude has the code of this magnitude. -/
theorem codeOfRat_eq_of_near {x : ℚ} {n : Nat} (hx : 0 ≤ x)
    (h : |x - valueOfCode n| < valueOfCode n / 2 ^ 54) : codeOfRat x = n := by
  by_contra hne
  have hgap := div_le_abs_valueOfCode_sub hne
  have hnear := abs_sub_codeOfRat_le hx n
  have htriangle := abs_sub_le (valueOfCode (codeOfRat x)) x (valueOfCode n)
  rw [abs_sub_comm (valueOfCode (codeOfRat x)) x] at htriangle
  have hhalf : valueOfCode n / 2 ^ 53 = 2 * (valueOfCode n / 2 ^ 54) := by ring
  linarith

theorem lastBit_mono : Monotone lastBit := fun _ _ h =>
  div_le_div_of_nonneg_right (Nat.cast_le.2 (twoTo_le_twoTo (Nat.sub_le_sub_right
    (log2_le_log2 (unitsOfCode_strictMono.monotone h)) 52))) (cast_twoTo_pos 1074).le

/-- Rounding to a normal magnitude changes half of its last bit at most. -/
theorem abs_sub_codeOfRat_le_div {x : ℚ} (hx : 0 ≤ x) (hn : twoTo 52 ≤ codeOfRat x) :
    |x - valueOfCode (codeOfRat x)| ≤ valueOfCode (codeOfRat x) / 2 ^ 53 := by
  obtain ⟨below, hcode, hlow, hhigh⟩ := exists_codeOfRat hx
  have hle : below ≤ codeOfRat x := by omega
  have hlast := lastBit_mono hle
  have hsucc := valueOfCode_succ below
  have hbits := lastBit_le hn
  rw [le_div_iff₀ (by norm_num)]
  linarith

end Keyset
