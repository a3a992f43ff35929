import Keyset.Proofs.NearestDoubles

/-!
# Integers rounded to double precision

Rounding keeps the order of fractions but not their difference: from 2 to the power 53 on,
neighbours among the integers have the same nearest number. Up to there, every integer is its own
nearest number.
-/
namespace Keyset

/-! ## Rounding keeps the order -/

theorem nearerCode_mono (below : Nat) {excess more : Nat} (gap : Nat) (h : excess ≤ more) :
    nearerCode below excess gap ≤ nearerCode below more gap := by
  rw [nearerCode, nearerCode]
  split
  · split
    · exact le_rfl
    · exact Nat.le_succ below
  · next hfar =>
    rw [if_neg (by omega)]

theorem nearerCode_le (below excess gap : Nat) : nearerCode below excess gap ≤ below + 1 := by
  rw [nearerCode]
  split
  · exact Nat.le_succ below
  · exact le_rfl

theorem log2_le_log2 {m n : Nat} (h : m ≤ n) : m.log2 ≤ n.log2 := by
  rw [Nat.log2_eq_log_two, Nat.log2_eq_log_two]
  exact Nat.log_mono_right h

/-- No more than 53 bits of a magnitude are left over its shift. -/
theorem div_twoTo_lt {units shift : Nat} (h : units.log2 - 52 = shift) :
    units / twoTo shift < twoTo 53 := by
  rw [Nat.div_lt_iff_lt_mul (twoTo_pos shift), ← twoTo_add]
  exact lt_of_lt_of_le Nat.lt_log2_self (twoTo_le_twoTo (by omega))

theorem code_lt_of_shift_lt {units more shift greater : Nat} (hunits : units.log2 - 52 = shift)
    (hmore : more.log2 - 52 = greater) (h : shift < greater) :
    shift * twoTo 52 + units / twoTo shift < greater * twoTo 52 + more / twoTo greater := by
  have hlow := div_twoTo_lt hunits
  have hhigh : twoTo 52 ≤ more / twoTo greater := le_div_twoTo (by omega)
  obtain ⟨gap, rfl⟩ := Nat.exists_eq_add_of_lt h
  rw [twoTo_succ] at hlow
  rw [Nat.add_mul, Nat.add_mul]
  omega

theorem codeOfRatio_mono {m n : Nat} (h : m ≤ n) (den : Nat) :
    codeOfRatio m den ≤ codeOfRatio n den := by
  have hscaled : m * twoTo 1074 ≤ n * twoTo 1074 := Nat.mul_le_mul_right _ h
  have hunits : m * twoTo 1074 / den ≤ n * twoTo 1074 / den := Nat.div_le_div_right hscaled
  have hshift : (m * twoTo 1074 / den).log2 - 52 ≤ (n * twoTo 1074 / den).log2 - 52 :=
    Nat.sub_le_sub_right (log2_le_log2 hunits) 52
  rw [codeOfRatio_eq rfl rfl, codeOfRatio_eq rfl rfl]
  rcases Nat.lt_or_eq_of_le hshift with hlt | heq
  · exact le_trans (nearerCode_le _ _ _)
      (le_trans (code_lt_of_shift_lt rfl rfl hlt) (le_nearerCode _ _ _))
  · rw [heq]
    generalize (n * twoTo 1074 / den).log2 - 52 = shift
    have hquotient : m * twoTo 1074 / den / twoTo shift ≤ n * twoTo 1074 / den / twoTo shift :=
      Nat.div_le_div_right hunits
    rcases Nat.lt_or_eq_of_le hquotient with hlt | hsame
    · exact le_trans (nearerCode_le _ _ _)
        (le_trans (Nat.add_lt_add_left hlt _) (le_nearerCode _ _ _))
    · -- Between the same two codes, the larger fraction is farther from the lower one.
      rw [hsame]
      exact nearerCode_mono _ _ (by omega)

/-! ## Integers that are not rounded -/

theorem unitsOfCode_normal {bits : Nat} (h : bits < twoTo 52) (shift : Nat) :
    unitsOfCode (twoTo 52 * (shift + 1) + bits) = (twoTo 52 + bits) * twoTo shift := by
  have hlarge : ¬ twoTo 52 * (shift + 1) + bits < twoTo 52 := by
    rw [Nat.mul_add_one]
    omega
  rw [unitsOfCode, if_neg hlarge, Nat.mul_add_mod, Nat.mod_eq_of_lt h,
    Nat.mul_add_div (twoTo_pos 52), Nat.div_eq_of_lt h]
  rfl

/-- Any 53 bits are those of a double-precision number, at any distance from the last bit. -/
theorem exists_unitsOfCode (shift : Nat) {significand : Nat} (h : significand < twoTo 53) :
    ∃ code, unitsOfCode code = significand * twoTo shift := by
  by_cases hnormal : twoTo 52 ≤ significand
  · obtain ⟨bits, rfl⟩ := Nat.exists_eq_add_of_le hnormal
    rw [twoTo_succ 52] at h
    exact ⟨_, unitsOfCode_normal (by omega) shift⟩
  · induction shift generalizing significand with
    | zero =>
      exact ⟨significand, by rw [unitsOfCode, if_pos (not_le.1 hnormal), twoTo_zero, mul_one]⟩
    | succ shift ih =>
      -- One bit more and a shift less are the same number.
      rw [twoTo_succ, Nat.mul_comm (twoTo shift), ← Nat.mul_assoc]
      by_cases hnext : twoTo 52 ≤ significand * 2
      · obtain ⟨bits, hbits⟩ := Nat.exists_eq_add_of_le hnext
        rw [hbits]
        exact ⟨_, unitsOfCode_normal (by omega) shift⟩
      · exact ih (by rw [twoTo_succ]; omega) hnext

/-- An integer of at most 53 bits is equal to the number that is nearest to it. -/
theorem unitsOfCode_codeOfRatio {n : Nat} (h : n ≤ twoTo 53) :
    unitsOfCode (codeOfRatio n 1) = n * twoTo 1074 := by
  have hexact : ∃ code, unitsOfCode code = n * twoTo 1074 := by
    rcases Nat.lt_or_eq_of_le h with hlt | rfl
    · exact exists_unitsOfCode 1074 hlt
    · have hlow : twoTo 52 < twoTo 53 := by decide
      obtain ⟨code, hcode⟩ := exists_unitsOfCode (1074 + 1) hlow
      refine ⟨code, hcode.trans ?_⟩
      rw [twoTo_succ 1074, twoTo_succ 52]
      ring
  obtain ⟨code, hcode⟩ := hexact
  have hround := codeOfRatio_mul n 1 (twoTo_pos 1074)
  rw [← hcode, Nat.one_mul, codeOfRatio_unitsOfCode] at hround
  rw [← hround, hcode]

/-! ## The ranks of integers -/

/-- The code of the number that is nearest to a natural number, or of infinity. -/
def nearestCode (n : Nat) : Nat := min (codeOfRatio n 1) infinityCode

theorem nearestCode_mono {m n : Nat} (h : m ≤ n) : nearestCode m ≤ nearestCode n :=
  min_le_min_right _ (codeOfRatio_mono h 1)

theorem nearestCode_zero : nearestCode 0 = 0 := by
  rw [nearestCode, codeOfRatio_zero one_pos, Nat.zero_min]

theorem nearestCode_inj {m n : Nat} (hm : m ≤ twoTo 53) (hn : n ≤ twoTo 53)
    (h : nearestCode m = nearestCode n) : m = n := by
  have hfinite {k : Nat} (hk : k ≤ twoTo 53) : nearestCode k = codeOfRatio k 1 := by
    have htop : codeOfRatio (twoTo 53) 1 ≤ infinityCode := by decide +kernel
    exact Nat.min_eq_left (le_trans (codeOfRatio_mono hk 1) htop)
  rw [hfinite hm, hfinite hn] at h
  have hunits := congrArg unitsOfCode h
  rw [unitsOfCode_codeOfRatio hm, unitsOfCode_codeOfRatio hn] at hunits
  exact Nat.eq_of_mul_eq_mul_right (twoTo_pos 1074) hunits

namespace Binary64

def ofIntRank (n : Int) : Int := if n < 0 then -(nearestCode n.natAbs) else nearestCode n.natAbs

theorem rank?_ofInt (n : Int) : (ofInt n).rank? = some (ofIntRank n) := by
  rw [ofInt, ofRatio, ofIntRank, nearestCode]
  by_cases hfinite : codeOfRatio n.natAbs 1 < infinityCode
  · rw [dif_pos hfinite, Nat.min_eq_left hfinite.le, rank?, Finite64.rank]
    simp only [decide_eq_true_eq]
  · rw [dif_neg hfinite, Nat.min_eq_right (not_lt.1 hfinite), rank?]
    simp only [decide_eq_true_eq]

theorem ofIntRank_mono : Monotone ofIntRank := by
  intro m n h
  rw [ofIntRank, ofIntRank]
  by_cases hm : m < 0
  · rw [if_pos hm]
    by_cases hn : n < 0
    · have hcode : nearestCode n.natAbs ≤ nearestCode m.natAbs := nearestCode_mono (by omega)
      rw [if_pos hn]
      omega
    · rw [if_neg hn]
      omega
  · have hcode : nearestCode m.natAbs ≤ nearestCode n.natAbs := nearestCode_mono (by omega)
    rw [if_neg hm, if_neg (by omega)]
    omega

/-- Integers up to 2 to the power 53 stay different. -/
theorem ofIntRank_inj {m n : Int} (hm : m.natAbs ≤ twoTo 53) (hn : n.natAbs ≤ twoTo 53)
    (h : ofIntRank m = ofIntRank n) : m = n := by
  have hzero {k : Int} (hk : k.natAbs ≤ twoTo 53) (h0 : nearestCode k.natAbs = 0) : k = 0 :=
    Int.natAbs_eq_zero.1 (nearestCode_inj hk (Nat.zero_le _) (h0.trans nearestCode_zero.symm))
  rw [ofIntRank, ofIntRank] at h
  split at h <;> split at h
  · have habs := nearestCode_inj hm hn (by omega)
    omega
  · have := hzero hm (by omega)
    omega
  · have := hzero hn (by omega)
    omega
  · have habs := nearestCode_inj hm hn (by omega)
    omega

end Binary64

end Keyset
